/-
# From an automaton to a text and back

The state elimination gives an expression, and its text is a pattern that can be
converted to a deterministic automaton again.  There is no way to write an operator,
a blank or the sign `ε` as a symbol of a pattern, so that automaton accepts the same
words exactly if these are spelled with plain symbols
(`regexToDfa_text_preserves_iff`).

On the one hand every symbol of an expression is used by some of its words
(`isPlain_iff_words`), so if the words are plain, then so is the expression, and it is
read as it was printed.  On the other hand, whatever a pattern is read as, its words are
plain.
-/
import LanguageForms.Proofs.Conversion.Outcome
import LanguageForms.Proofs.Generalized.Language
import LanguageForms.Proofs.Regex.Printing

namespace LanguageForms

namespace Regex

variable {r : Regex} {c : Char}

/-- Every symbol of an expression is used by one of its words. -/
theorem exists_matches_of_mem_symbols (h : c ∈ r.symbols) : ∃ w, r.Matches w ∧ c ∈ w := by
  induction r with
  | symbol d => exact ⟨[d], .symbol d, h⟩
  | epsilon => cases h
  | union l r ihl ihr =>
    rcases List.mem_append.1 h with h | h
    · obtain ⟨w, hw, hc⟩ := ihl h
      exact ⟨w, .unionLeft hw, hc⟩
    · obtain ⟨w, hw, hc⟩ := ihr h
      exact ⟨w, .unionRight hw, hc⟩
  | concat l r ihl ihr =>
    rcases List.mem_append.1 h with h | h
    · obtain ⟨u, hu, hc⟩ := ihl h
      obtain ⟨v, hv⟩ := exists_matches r
      exact ⟨u ++ v, .concat hu hv, List.mem_append_left _ hc⟩
    · obtain ⟨u, hu⟩ := exists_matches l
      obtain ⟨v, hv, hc⟩ := ihr h
      exact ⟨u ++ v, .concat hu hv, List.mem_append_right _ hc⟩
  | star r ih =>
    obtain ⟨w, hw, hc⟩ := ih h
    exact ⟨w, hw.star_single, hc⟩

/-- The symbols of an expression are plain exactly if those of its words are. -/
theorem isPlain_iff_words : r.IsPlain ↔ ∀ w, r.Matches w → ∀ c ∈ w, isPlain c = true := by
  constructor
  · exact fun h w hw c hc => h c (mem_symbols_of_matches hw c hc)
  · intro h c hc
    obtain ⟨w, hw, hcw⟩ := exists_matches_of_mem_symbols hc
    exact h w hw c hcw

/-- The text is read as an expression with the same words exactly if the symbols are plain. -/
theorem exists_parse_text_iff :
    (∃ s, parse r.text = .ok s ∧ ∀ w, s.Matches w ↔ r.Matches w) ↔ r.IsPlain := by
  constructor
  · rintro ⟨s, hs, hwords⟩
    have hplain : s.IsPlain := isPlain_of_denotes (read_eq_ok_iff.1 (parse_eq_ok_iff.1 hs))
    exact isPlain_iff_words.2 fun w hw => isPlain_iff_words.1 hplain w ((hwords w).2 hw)
  · exact fun h => ⟨r, parse_text_of_isPlain h, fun _ => Iff.rfl⟩

end Regex

namespace Conversion

/-- The deterministic automaton of an expression accepts its words. -/
theorem accepts_deterministic_iff (r : Regex) (w : List Char) :
    r.toAutomaton.1.subsets.1.accepts w = true ↔ r.Matches w := by
  rw [Automaton.accepts_subsets (Regex.wellFormed_toAutomaton r)]
  show ((Regex.build r.alphabet r 0).1.toAutomaton r.alphabet).accepts w = true ↔ _
  rw [Fragment.accepts_toAutomaton_iff, Regex.spells_build_iff]

/-- A pattern is converted to an automaton for certain words exactly if it is read as an expression
for them. -/
theorem exists_run_regexToDfa_iff {pattern : String} {P : List Char → Prop} :
    (∃ d trace, (regexToDfa pattern).run = .ok ⟨.automaton d, trace⟩ ∧
        ∀ w, d.accepts w = true ↔ P w) ↔
      ∃ r, Regex.parse pattern = .ok r ∧ ∀ w, r.Matches w ↔ P w := by
  constructor
  · rintro ⟨d, trace, hrun, hwords⟩
    generalize hreport : Report.mk (.automaton d) trace = report at hrun
    cases gives_of_run hrun with
    | @regexToDfa _ r hr =>
      obtain ⟨hd, -⟩ := Report.mk.inj hreport
      obtain rfl := Result.automaton.inj hd
      exact ⟨r, hr, fun w => (accepts_deterministic_iff r w).symm.trans (hwords w)⟩
  · rintro ⟨r, hr, hwords⟩
    have hrun : (regexToDfa pattern).run = regexToDeterministic r := by rw [run, withPattern, hr]
    rw [hrun, regexToDeterministic_eq]
    exact ⟨_, _, rfl, fun w => (accepts_deterministic_iff r w).trans (hwords w)⟩

end Conversion

namespace Automaton

open Conversion (regexToDfa)

/-- The elimination succeeds exactly if the parts of the automaton fit together. -/
theorem toRegex_eq_ok_iff {a : Automaton} {outcome : Option Regex} {story : Trace} :
    a.toRegex = .ok (outcome, story) ↔ a.WellFormed ∧ a.elimination = (outcome, story) := by
  rw [← defect?_eq_none_iff, toRegex]
  cases a.defect? with
  | none => simp only [Except.ok.injEq, true_and]
  | some e => simp

/-- **The text of the expression for an automaton can be converted back** to a deterministic
automaton for the same words if these are spelled with plain symbols, and only then. -/
theorem regexToDfa_text_preserves_iff (a : Automaton) (h : a.check = .ok ()) (r : Regex)
    (story : Trace) (hr : a.toRegex = .ok (some r, story)) :
    (∃ d trace, (regexToDfa r.text).run = .ok ⟨.automaton d, trace⟩ ∧
        ∀ w, d.accepts w = a.accepts w) ↔
      ∀ w, a.accepts w = true → ∀ c ∈ w, Regex.isPlain c = true := by
  have ha : a.WellFormed := check_eq_ok_iff.1 h
  have hanswer : a.elimination.1 = some r := congrArg Prod.fst (toRegex_eq_ok_iff.1 hr).2
  have hwords : ∀ w, a.accepts w = true ↔ r.Matches w := fun w => by
    rw [← exists_answer_iff ha, hanswer]
    simp
  have hsame : ∀ d : Automaton, (∀ w, d.accepts w = a.accepts w) ↔
      ∀ w, d.accepts w = true ↔ r.Matches w := fun d =>
    forall_congr' fun w => by rw [Bool.eq_iff_iff, hwords]
  simp only [hsame, hwords]
  rw [Conversion.exists_run_regexToDfa_iff, Regex.exists_parse_text_iff, Regex.isPlain_iff_words]

/-- The hypotheses of `regexToDfa_text_preserves_iff` are satisfiable. -/
theorem regexToDfa_text_entangled :
    ∃ r story, entangled.check = .ok () ∧ entangled.toRegex = .ok (some r, story) ∧
      ((∃ d trace, (regexToDfa r.text).run = .ok ⟨.automaton d, trace⟩ ∧
          ∀ w, d.accepts w = entangled.accepts w) ↔
        ∀ w, entangled.accepts w = true → ∀ c ∈ w, Regex.isPlain c = true) := by
  have hsome : entangled.elimination.1.isSome = true := by decide +kernel
  obtain ⟨r, hanswer⟩ := Option.isSome_iff_exists.1 hsome
  have hr : entangled.toRegex = .ok (some r, entangled.elimination.2) :=
    toRegex_eq_ok_iff.2 ⟨check_eq_ok_iff.1 rfl, Prod.ext hanswer rfl⟩
  exact ⟨r, _, rfl, hr, regexToDfa_text_preserves_iff entangled rfl r _ hr⟩

/-- One transition, which reads `*`. -/
def asterisk : Automaton where
  kind := .nondeterministic
  states := .ofList [⟨"s"⟩, ⟨"t"⟩]
  alphabet := .ofList ['*']
  transitions := .ofList [⟨⟨"s"⟩, .symbol '*', ⟨"t"⟩⟩]
  start := ⟨"s"⟩
  accepting := .ofList [⟨"t"⟩]

/-- The expression of the automaton for one asterisk is the asterisk as a symbol. -/
theorem toRegex_asterisk :
    asterisk.toRegex = .ok (some (.symbol '*'), asterisk.elimination.2) := by
  have hanswer : asterisk.elimination.1 = some (.symbol '*') := by decide +kernel
  exact toRegex_eq_ok_iff.2 ⟨check_eq_ok_iff.1 rfl, Prod.ext hanswer rfl⟩

/-- The pattern `*` lacks an operand. -/
theorem run_asterisk : (regexToDfa (Regex.symbol '*').text).run =
    .error (.regexSyntax ⟨0, ['*'], .missingOperand '*'⟩) :=
  rfl

/-- **Not every expression for an automaton can be converted back**: that for `asterisk` is printed
as an operator. -/
theorem not_regexToDfa_text_preserves :
    ¬ ∀ (a : Automaton) (r : Regex) (story : Trace), a.check = .ok () →
      a.toRegex = .ok (some r, story) → ∃ d trace,
        (regexToDfa r.text).run = .ok ⟨.automaton d, trace⟩ ∧ ∀ w, d.accepts w = a.accepts w := by
  intro h
  obtain ⟨d, trace, hrun, -⟩ := h asterisk (.symbol '*') _ rfl toRegex_asterisk
  rw [run_asterisk] at hrun
  cases hrun

end Automaton
end LanguageForms
