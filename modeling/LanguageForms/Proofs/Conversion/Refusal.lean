/-
# The inputs that a conversion refuses

If the input of a conversion has been handed out by this library, its parts fit
together, so no check can complain about them.  What is left is that a pattern cannot be
read, or that an automaton is to be taken as a deterministic one and is none
(`Conversion.IsRefused`).  The conversion fails on these inputs and on no others, and
the error says what is wrong (`Conversion.Refusal`): the syntax error of the pattern, or
what is wrong with the first ambiguous transition.
-/
import LanguageForms.Conversion.Input
import LanguageForms.Proofs.Automaton.Ambiguity
import LanguageForms.Proofs.Conversion.Outcome

namespace LanguageForms

/-! ### Grammars that are handed out -/

namespace Grammar

variable {g : Grammar}

/-- A grammar that was made of its parts is well-formed. -/
theorem wellFormed_of_ofParts {nonterminals terminals : List Char} {productions : List Production}
    {start : Char} (h : Grammar.ofParts nonterminals terminals productions start = .ok g) :
    g.WellFormed := by
  dsimp only [ofParts] at h
  split at h
  · next hdefect =>
    rw [← Except.ok.inj h]
    exact defect?_eq_none_iff.1 hdefect
  · cases h

/-- A grammar that is read is made of parts in the end. -/
theorem wellFormed_of_read {text : String} (h : Grammar.read text = .ok g) : g.WellFormed := by
  rw [Grammar.read, readChars] at h
  split at h
  · cases h
  · next ps _ =>
    cases ps with
    | nil => cases h
    | cons p ps => exact wellFormed_of_ofParts h

/-- **The parts fit together** in every grammar that is handed out. -/
theorem Obtained.wellFormed (h : g.Obtained) : g.WellFormed := by
  cases h with
  | ofParts h => exact wellFormed_of_ofParts h
  | read h => exact wellFormed_of_read h

end Grammar

namespace Conversion

variable {c : Conversion} {e : Error}

/-- The inputs that are refused: patterns that cannot be read, and ambiguous automata that should
be deterministic, whatever they call themselves. -/
def IsRefused : Conversion → Prop
  | regexToNfa pattern => ∃ e, Regex.parse pattern = .error e
  | regexToDfa pattern => ∃ e, Regex.parse pattern = .error e
  | dfaToNfa a => a.IsAmbiguous
  | dfaToRegex a => a.IsAmbiguous
  | nfaToDfa _ => False
  | nfaToRegex _ => False
  | grammarToPushdown _ => False

/-- The error with which an input is refused. -/
def Refusal : Conversion → Error → Prop
  | regexToNfa pattern, e => ∃ s, Regex.parse pattern = .error s ∧ .regexSyntax s = e
  | regexToDfa pattern, e => ∃ s, Regex.parse pattern = .error s ∧ .regexSyntax s = e
  | dfaToNfa a, e => ∃ d, a.FirstAmbiguity d ∧ .malformedAutomaton d = e
  | dfaToRegex a, e => ∃ d, a.FirstAmbiguity d ∧ .malformedAutomaton d = e
  | nfaToDfa _, _ => False
  | nfaToRegex _, _ => False
  | grammarToPushdown _, _ => False

/-- A wrapped error is there if there is one to wrap. -/
theorem exists_wrapped_iff {α : Type} {P : α → Prop} {f : α → Error} :
    (∃ e x, P x ∧ f x = e) ↔ ∃ x, P x :=
  ⟨fun ⟨_, x, hx, _⟩ => ⟨x, hx⟩, fun ⟨x, hx⟩ => ⟨f x, x, hx, rfl⟩⟩

/-- For every input that is refused there is an error. -/
theorem exists_refusal_iff : (∃ e, c.Refusal e) ↔ c.IsRefused := by
  cases c with
  | regexToNfa pattern => exact exists_wrapped_iff
  | regexToDfa pattern => exact exists_wrapped_iff
  | dfaToNfa a => exact exists_wrapped_iff.trans Automaton.exists_firstAmbiguity_iff
  | dfaToRegex a => exact exists_wrapped_iff.trans Automaton.exists_firstAmbiguity_iff
  | nfaToDfa | nfaToRegex | grammarToPushdown => exact ⟨fun ⟨_, he⟩ => he, False.elim⟩

/-- What keeps an automaton that is handed out from being deterministic is its first ambiguous
transition. -/
theorem deterministicDefect?_eq_some_iff {a : Automaton} {d : Automaton.Defect} (h : a.Obtained) :
    a.deterministicDefect? = some d ↔ a.FirstAmbiguity d := by
  rw [← Automaton.ambiguity?_eq_some_iff, Automaton.deterministicDefect?,
    Automaton.defect?_eq_none_iff.2 h.proper.wellFormed, Option.none_or]

/-- A check that finds what is documented is reported as such. -/
theorem map_eq_some_iff_wrapped {α : Type} {check : Option α} {P : α → Prop} {f : α → Error}
    (h : ∀ x, check = some x ↔ P x) : check.map f = some e ↔ ∃ x, P x ∧ f x = e :=
  Option.map_eq_some_iff.trans (exists_congr fun x => and_congr_left fun _ => h x)

/-- **The check finds what is documented** and nothing else. -/
theorem refusal?_eq_some_iff (h : c.InputObtained) : c.refusal? = some e ↔ c.Refusal e := by
  cases c with
  | regexToNfa pattern => exact map_eq_some_iff_wrapped fun _ => syntaxError?_eq_some_iff
  | regexToDfa pattern => exact map_eq_some_iff_wrapped fun _ => syntaxError?_eq_some_iff
  | dfaToNfa a => exact map_eq_some_iff_wrapped fun _ => deterministicDefect?_eq_some_iff h
  | dfaToRegex a => exact map_eq_some_iff_wrapped fun _ => deterministicDefect?_eq_some_iff h
  | nfaToDfa a =>
    have ha : a.Obtained := h
    rw [refusal?, Automaton.defect?_eq_none_iff.2 ha.proper.wellFormed]
    exact iff_of_false (fun he => nomatch he) id
  | nfaToRegex a =>
    have ha : a.Obtained := h
    rw [refusal?, Automaton.defect?_eq_none_iff.2 ha.proper.wellFormed]
    exact iff_of_false (fun he => nomatch he) id
  | grammarToPushdown g =>
    have hg : g.Obtained := h
    rw [refusal?, Grammar.defect?_eq_none_iff.2 hg.wellFormed]
    exact iff_of_false (fun he => nomatch he) id

/-- **A conversion fails exactly on the documented inputs**, and with the documented error. -/
theorem run_fails_iff_isRefused (c : Conversion) (h : c.InputObtained) :
    ((∃ e, c.run = .error e) ↔ c.IsRefused) ∧ (∀ e, c.run = .error e ↔ c.Refusal e) ∧
      (¬ c.IsRefused → ∃ report, c.run = .ok report) := by
  have herror : ∀ e, c.run = .error e ↔ c.Refusal e := fun e =>
    run_eq_error_iff.trans (refusal?_eq_some_iff h)
  have hfails : (∃ e, c.run = .error e) ↔ c.IsRefused :=
    (exists_congr herror).trans exists_refusal_iff
  refine ⟨hfails, herror, fun hnot => ?_⟩
  refine exists_run_of_refusal?_eq_none (Option.eq_none_iff_forall_ne_some.2 fun e he => ?_)
  exact hnot (hfails.1 ⟨e, run_eq_error_iff.2 he⟩)

/-- Declarations by which the symbol `a` leads from `p` to `p` and to `q`. -/
def forkedParts : List Automaton.Declaration :=
  [.transitions [(⟨"p"⟩, 'a', ⟨"p"⟩), (⟨"p"⟩, 'a', ⟨"q"⟩)], .accepting [⟨"q"⟩]]

/-- The automaton that is described by these declarations. -/
def forked : Automaton :=
  (Automaton.Description.ofList forkedParts).assemble .nondeterministic ⟨"p"⟩

/-- The hypothesis of `run_fails_iff_isRefused` is satisfiable, and there are inputs that are
refused. -/
theorem run_fails_forked :
    (dfaToNfa forked).InputObtained ∧ (dfaToNfa forked).IsRefused ∧
      (dfaToNfa forked).run = .error (.malformedAutomaton (.ambiguous ⟨"p"⟩ 'a' 2)) := by
  have hdone : (Automaton.Description.ofList forkedParts).toNondeterministic ⟨"p"⟩ = .ok forked :=
    rfl
  have hinput : (dfaToNfa forked).InputObtained := .described hdone
  have hrun : (dfaToNfa forked).run =
    .error (.malformedAutomaton (.ambiguous ⟨"p"⟩ 'a' 2)) := rfl
  exact ⟨hinput, (run_fails_iff_isRefused _ hinput).1.1 ⟨_, hrun⟩, hrun⟩

end Conversion
end LanguageForms
