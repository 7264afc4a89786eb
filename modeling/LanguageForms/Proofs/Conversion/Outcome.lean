/-
# What comes of a conversion

A conversion checks its input before it takes a step.  `Conversion.refusal?` is what
the check finds, and `Conversion.Gives` says for every kind of conversions what the
result and the trace are if it finds nothing.  There is nothing else that can come of
a conversion (`outcome_run`).

Between the two halves of a conversion from an expression to a deterministic automaton
there is one more check, of the automaton in between.  It finds nothing, because the
parts of that automaton always fit together (`regexToDeterministic_eq`).
-/
import LanguageForms.Conversion
import LanguageForms.Proofs.Automaton.Obtained

namespace LanguageForms
namespace Conversion

variable {c : Conversion} {e : Error} {report : Report}

/-- Why a pattern cannot be read. -/
def syntaxError? (pattern : String) : Option Regex.SyntaxError :=
  match Regex.parse pattern with
  | .ok _ => none
  | .error e => some e

/-- What the check of the input finds. -/
def refusal? : Conversion → Option Error
  | nfaToDfa a => a.defect?.map .malformedAutomaton
  | dfaToNfa a => a.deterministicDefect?.map .malformedAutomaton
  | regexToNfa pattern => (syntaxError? pattern).map .regexSyntax
  | regexToDfa pattern => (syntaxError? pattern).map .regexSyntax
  | nfaToRegex a => a.defect?.map .malformedAutomaton
  | dfaToRegex a => a.deterministicDefect?.map .malformedAutomaton
  | grammarToPushdown g => g.defect?.map .malformedGrammar

/-- What a conversion gives whose input is in order. -/
inductive Gives : Conversion → Report → Prop where
  | nfaToDfa {a : Automaton} :
      a.WellFormed → Gives (.nfaToDfa a) ⟨.automaton a.subsets.1, a.subsets.2⟩
  | dfaToNfa {a : Automaton} : a.WellFormed → a.Deterministic →
      Gives (.dfaToNfa a) ⟨.automaton a.asNondeterministic, a.wideningTrace⟩
  | regexToNfa {pattern : String} {r : Regex} : Regex.parse pattern = .ok r →
      Gives (.regexToNfa pattern) ⟨.automaton r.toAutomaton.1, r.toAutomaton.2⟩
  | regexToDfa {pattern : String} {r : Regex} : Regex.parse pattern = .ok r →
      Gives (.regexToDfa pattern) ⟨.automaton r.toAutomaton.1.subsets.1,
        r.toAutomaton.2.andThen delimiterLabel delimiterStory r.toAutomaton.1.subsets.2⟩
  | nfaToRegex {a : Automaton} :
      a.WellFormed → Gives (.nfaToRegex a) ⟨.regex a.elimination.1, a.elimination.2⟩
  | dfaToRegex {a : Automaton} : a.WellFormed → a.Deterministic →
      Gives (.dfaToRegex a) ⟨.regex a.elimination.1, a.elimination.2⟩
  | grammarToPushdown {g : Grammar} :
      g.WellFormed → Gives (.grammarToPushdown g) ⟨.pushdown g.automaton, g.automatonTrace⟩

/-- What can come of a conversion: the check finds something, or the conversion gives what it
should. -/
inductive Outcome (c : Conversion) : Except Error Report → Prop where
  | refused {e : Error} : c.refusal? = some e → Outcome c (.error e)
  | given {report : Report} : c.refusal? = none → c.Gives report → Outcome c (.ok report)

/-- The automaton in between needs no check. -/
theorem regexToDeterministic_eq (r : Regex) :
    regexToDeterministic r = .ok ⟨.automaton r.toAutomaton.1.subsets.1,
      r.toAutomaton.2.andThen delimiterLabel delimiterStory r.toAutomaton.1.subsets.2⟩ := by
  have hdone : r.toAutomaton.1.determinise =
      .ok (r.toAutomaton.1.subsets.1, r.toAutomaton.1.subsets.2) :=
    Automaton.determinise_eq_ok_iff.2 ⟨Regex.wellFormed_toAutomaton r, rfl⟩
  rw [regexToDeterministic, hdone]

/-- The syntax error of a pattern is the one that reading it reports. -/
theorem syntaxError?_eq_some_iff {pattern : String} {e : Regex.SyntaxError} :
    syntaxError? pattern = some e ↔ Regex.parse pattern = .error e := by
  rw [syntaxError?]
  cases Regex.parse pattern with
  | ok r => exact iff_of_false (fun h => nomatch h) fun h => nomatch h
  | error e' =>
    exact ⟨fun h => congrArg _ (Option.some.inj h), fun h => congrArg _ (Except.error.inj h)⟩

/-- A pattern without a syntax error can be read. -/
theorem syntaxError?_eq_none_iff {pattern : String} :
    syntaxError? pattern = none ↔ ∃ r, Regex.parse pattern = .ok r := by
  rw [syntaxError?]
  cases Regex.parse pattern with
  | ok r => exact iff_of_true rfl ⟨r, rfl⟩
  | error e => exact iff_of_false (fun h => nomatch h) fun ⟨_, h⟩ => nomatch h

/-- What fails as the check says, and else gives what it should, is a possible outcome. -/
theorem outcome_of_check {δ : Type} {check : Option δ} {f : δ → Error} {x : Except Error Report}
    (hcheck : c.refusal? = check.map f) (hsome : ∀ d, check = some d → x = .error (f d))
    (hnone : check = none → ∃ report, x = .ok report ∧ c.Gives report) : c.Outcome x := by
  cases check with
  | none =>
    obtain ⟨report, rfl, hgives⟩ := hnone rfl
    exact .given hcheck hgives
  | some d =>
    rw [hsome d rfl]
    exact .refused hcheck

/-- An engine that first checks its automaton and then cannot fail has a possible outcome. -/
theorem outcome_ofAutomaton {α : Type} {f : α → Result} {check : Option Automaton.Defect}
    {x : Except Automaton.Defect (α × Trace)} {b : α × Trace}
    (hx : x = match check with | some d => .error d | none => .ok b)
    (hcheck : c.refusal? = check.map .malformedAutomaton)
    (hgives : check = none → c.Gives ⟨f b.1, b.2⟩) : c.Outcome (ofAutomaton f x) := by
  refine outcome_of_check hcheck (fun d hd => ?_) fun hnone => ?_
  · rw [hx, hd]
    rfl
  · rw [hx, hnone]
    exact ⟨_, rfl, hgives hnone⟩

/-- **Nothing else can come of a conversion**: an input that passes its check is converted. -/
theorem outcome_run (c : Conversion) : c.Outcome c.run := by
  cases c with
  | nfaToDfa a =>
    exact outcome_ofAutomaton (b := a.subsets) rfl rfl fun h =>
      .nfaToDfa (Automaton.defect?_eq_none_iff.1 h)
  | dfaToNfa a =>
    refine outcome_ofAutomaton (b := (a.asNondeterministic, a.wideningTrace)) rfl rfl fun h => ?_
    obtain ⟨hfits, hdet⟩ := Automaton.deterministicDefect?_eq_none_iff.1 h
    exact .dfaToNfa hfits hdet
  | regexToNfa pattern =>
    refine outcome_of_check rfl (fun e he => ?_) fun hnone => ?_
    · rw [run, withPattern, syntaxError?_eq_some_iff.1 he]
    · obtain ⟨r, hr⟩ := syntaxError?_eq_none_iff.1 hnone
      rw [run, withPattern, hr]
      exact ⟨_, rfl, .regexToNfa hr⟩
  | regexToDfa pattern =>
    refine outcome_of_check rfl (fun e he => ?_) fun hnone => ?_
    · rw [run, withPattern, syntaxError?_eq_some_iff.1 he]
    · obtain ⟨r, hr⟩ := syntaxError?_eq_none_iff.1 hnone
      rw [run, withPattern, hr]
      exact ⟨_, regexToDeterministic_eq r, .regexToDfa hr⟩
  | nfaToRegex a =>
    exact outcome_ofAutomaton (b := a.elimination) rfl rfl fun h =>
      .nfaToRegex (Automaton.defect?_eq_none_iff.1 h)
  | dfaToRegex a =>
    refine outcome_of_check rfl (fun d hd => ?_) fun hnone => ?_
    · rw [run, hd]
    · obtain ⟨hfits, hdet⟩ := Automaton.deterministicDefect?_eq_none_iff.1 hnone
      rw [run, hnone, Automaton.toRegex, Automaton.defect?_eq_none_iff.2 hfits]
      exact ⟨_, rfl, .dfaToRegex hfits hdet⟩
  | grammarToPushdown g =>
    refine outcome_of_check rfl (fun d hd => ?_) fun hnone => ?_
    · rw [run, Grammar.toPushdown, hd]
    · rw [run, Grammar.toPushdown, hnone]
      exact ⟨_, rfl, .grammarToPushdown (Grammar.defect?_eq_none_iff.1 hnone)⟩

/-- What is reported is what the conversion should give. -/
theorem gives_of_run (h : c.run = .ok report) : c.Gives report := by
  have hout := outcome_run c
  rw [h] at hout
  cases hout with
  | given _ hgives => exact hgives

/-- **A conversion fails exactly if the check finds something**, and with what it finds. -/
theorem run_eq_error_iff : c.run = .error e ↔ c.refusal? = some e := by
  have hout := outcome_run c
  constructor
  · intro h
    rw [h] at hout
    cases hout with
    | refused he => exact he
  · intro h
    generalize c.run = x at hout
    cases hout with
    | refused he => rw [Option.some.inj (he.symm.trans h)]
    | given hnone _ => exact absurd (hnone.symm.trans h) (Option.some_ne_none e).symm

/-- A conversion whose check finds nothing succeeds. -/
theorem exists_run_of_refusal?_eq_none (h : c.refusal? = none) : ∃ report, c.run = .ok report := by
  have hout := outcome_run c
  generalize c.run = x at hout
  cases hout with
  | refused he => exact absurd (he.symm.trans h) (Option.some_ne_none _)
  | given _ _ => exact ⟨_, rfl⟩

end Conversion
end LanguageForms
