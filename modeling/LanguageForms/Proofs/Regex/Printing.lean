/-
# The text of an expression reads as that expression

Every kind of expression has a layer of the grammar (`Regex.layer`), and brackets
are written around an operand whose layer is weaker than the one its place asks
for.  So the tokens of a text are a phrase of the layer of its expression
(`phrase_chars`): what is strong enough for its place is a phrase there
(`Phrase.weaken`), and what is in brackets is an operand.

This needs the symbols to be plain, for otherwise the tokens of the text are
others.  Conversely an expression that was read has plain symbols only
(`isPlain_of_denotes`), whatever the pattern was.
-/
import LanguageForms.Proofs.Regex.Reading
import LanguageForms.Regex.Printer

namespace LanguageForms
namespace Regex

variable {r : Regex} {c : Char} {cs : List Char} {ts : List Token}

/-! ### Layers -/

/-- How strongly the phrases of a layer bind. -/
def Layer.strength : Layer → Nat
  | choice => 0
  | sequence => 1
  | repetition => 2
  | operand => 3

/-- The layer of the phrases that an expression is written as. -/
def layer : Regex → Layer
  | union .. => .choice
  | concat .. => .sequence
  | star _ => .repetition
  | symbol _ => .operand
  | epsilon => .operand

/-- An expression is as strong as the layer it is written in. -/
theorem strength_layer (r : Regex) : r.layer.strength = r.strength := by
  cases r <;> rfl

/-- A phrase is also one of every layer that binds less strongly. -/
theorem Phrase.weaken : ∀ {l m : Layer}, m.strength ≤ l.strength → Phrase l ts r → Phrase m ts r
  | .operand, .operand, _, h => h
  | .operand, .repetition, _, h => .operand h
  | .operand, .sequence, _, h => .repetition (.operand h)
  | .operand, .choice, _, h => .sequence (.repetition (.operand h))
  | .repetition, .repetition, _, h => h
  | .repetition, .sequence, _, h => .repetition h
  | .repetition, .choice, _, h => .sequence (.repetition h)
  | .sequence, .sequence, _, h => h
  | .sequence, .choice, _, h => .sequence h
  | .choice, .choice, _, h => h

/-! ### The tokens of a text -/

/-- The token of a character that nothing follows. -/
def Token.alone (c : Char) : Token := Token.classify c none

/-- Only a `+` looks at what follows it. -/
theorem Token.classify_of_ne_plus (hc : c ≠ '+') (next : Option Char) :
    Token.classify c next = Token.alone c := by
  simp only [Token.alone, Token.classify, beq_eq_false_iff_ne.2 hc, Bool.false_eq_true, if_false]

/-- Without a `+` every character has its token whatever follows. -/
theorem Token.ofChars_eq_map (h : ¬ '+' ∈ cs) : Token.ofChars cs = cs.map Token.alone := by
  induction cs with
  | nil => rfl
  | cons c cs ih =>
    have hc : c ≠ '+' := fun hc => h (hc ▸ List.mem_cons_self ..)
    rw [Token.ofChars, Token.classify_of_ne_plus hc, ih (fun hcs => h (List.mem_cons_of_mem c hcs))]
    rfl

/-- A plain character is no operator, no blank and not `ε`. -/
theorem isPlain_iff : isPlain c = true ↔
    isOperator c = false ∧ Text.isBlank c = false ∧ c ≠ 'ε' := by
  simp only [isPlain, Bool.and_eq_true, Bool.not_eq_true', beq_eq_false_iff_ne, and_assoc]

/-- An expression in brackets where its place asks for them is a phrase of that place. -/
theorem phrase_bracketIf (m : Layer) (h : Phrase r.layer (r.chars.map Token.alone) r) :
    Phrase m ((bracketIf (r.strength < m.strength) r.chars).map Token.alone) r := by
  by_cases hs : r.strength < m.strength
  · rw [decide_eq_true hs, bracketIf, if_pos rfl, List.map_append]
    exact (Phrase.group (h.weaken (Nat.zero_le _))).weaken (by cases m <;> decide)
  · rw [decide_eq_false hs, bracketIf, if_neg Bool.false_ne_true]
    exact h.weaken (by rw [strength_layer]; omega)

/-- **The text of a plain expression** is a phrase for it, of its own layer. -/
theorem phrase_chars (h : r.IsPlain) : Phrase r.layer (r.chars.map Token.alone) r := by
  induction r with
  | symbol c =>
    obtain ⟨hc, -, hne⟩ := isPlain_iff.1 (h c (List.mem_singleton.2 rfl))
    rw [chars, List.map_singleton, Token.alone, Token.classify_eq_symbol_iff.2 ⟨hc, hne⟩]
    exact .symbol c
  | epsilon => exact .epsilon
  | union l r ihl ihr =>
    obtain ⟨hl, hr⟩ := List.forall_mem_append.1 h
    rw [chars, List.map_append]
    exact .union '|' ((ihl hl).weaken (Nat.zero_le _)) (phrase_bracketIf .sequence (ihr hr))
  | concat l r ihl ihr =>
    obtain ⟨hl, hr⟩ := List.forall_mem_append.1 h
    rw [chars, List.map_append]
    exact .concat (phrase_bracketIf .sequence (ihl hl)) (phrase_bracketIf .repetition (ihr hr))
  | star r ih =>
    rw [chars, List.map_append]
    exact .star (.operand (phrase_bracketIf .operand (ih h)))

/-! ### The characters of a text -/

/-- The characters that a text has besides the symbols of its expression. -/
def signs : List Char := ['ε', '|', '(', ')', '*']

/-- What holds of signs and of a text holds of the text in brackets. -/
theorem forall_mem_bracketIf {P : Char → Prop} (hsigns : ∀ c ∈ signs, P c) (b : Bool)
    (h : ∀ c ∈ cs, P c) : ∀ c ∈ bracketIf b cs, P c := by
  cases b with
  | false => exact h
  | true =>
    have hclosed : ∀ c ∈ cs ++ [')'], P c :=
      List.forall_mem_append.2 ⟨h, List.forall_mem_singleton.2 (hsigns ')' (by decide))⟩
    exact List.forall_mem_cons.2 ⟨hsigns '(' (by decide), hclosed⟩

/-- What holds of the signs and of the symbols holds of every character of the text. -/
theorem forall_mem_chars {P : Char → Prop} (hsigns : ∀ c ∈ signs, P c)
    (h : ∀ c ∈ r.symbols, P c) : ∀ c ∈ r.chars, P c := by
  induction r with
  | symbol c => exact h
  | epsilon => exact List.forall_mem_singleton.2 (hsigns 'ε' (by decide))
  | union l r ihl ihr =>
    obtain ⟨hl, hr⟩ := List.forall_mem_append.1 h
    exact List.forall_mem_append.2 ⟨ihl hl, List.forall_mem_cons.2
      ⟨hsigns '|' (by decide), forall_mem_bracketIf hsigns _ (ihr hr)⟩⟩
  | concat l r ihl ihr =>
    obtain ⟨hl, hr⟩ := List.forall_mem_append.1 h
    exact List.forall_mem_append.2 ⟨forall_mem_bracketIf hsigns _ (ihl hl),
      forall_mem_bracketIf hsigns _ (ihr hr)⟩
  | star r ih =>
    exact List.forall_mem_append.2 ⟨forall_mem_bracketIf hsigns _ (ih h),
      List.forall_mem_singleton.2 (hsigns '*' (by decide))⟩

/-- The text of an expression with plain symbols has no blank and no `+`. -/
theorem IsPlain.chars (h : r.IsPlain) : ∀ c ∈ r.chars, Text.isBlank c = false ∧ c ≠ '+' := by
  have hsigns : ∀ c ∈ signs, (!Text.isBlank c && c != '+') = true := List.all_eq_true.1 rfl
  simp only [Bool.and_eq_true, Bool.not_eq_true', bne_iff_ne] at hsigns
  refine forall_mem_chars hsigns fun c hc => ?_
  obtain ⟨hoperator, hblank, -⟩ := isPlain_iff.1 (h c hc)
  refine ⟨hblank, ?_⟩
  rintro rfl
  cases hoperator

/-- Without blanks and `+`, the tokens of a pattern are those of its characters. -/
theorem denotes_iff_alone (h : ∀ c ∈ cs, Text.isBlank c = false ∧ c ≠ '+') :
    Denotes cs r ↔ IsPattern (cs.map Token.alone) r := by
  have hvisible : (cs.filter fun c => !Text.isBlank c) = cs := by
    rw [List.filter_eq_self]
    intro c hc
    rw [(h c hc).1]
    rfl
  simp only [Denotes, Token.reads_iff, exists_eq_left]
  rw [hvisible, Token.ofChars_eq_map fun hplus => (h '+' hplus).2 rfl]

/-- The text of an expression with plain symbols stands for the expression. -/
theorem IsPlain.denotes (h : r.IsPlain) : Denotes r.chars r :=
  (denotes_iff_alone h.chars).2 (.choice ((phrase_chars h).weaken (Nat.zero_le _)))

/-! ### The symbols of a pattern -/

/-- Every symbol of an expression is a token of its phrase. -/
theorem Phrase.mem_symbols {l : Layer} (h : Phrase l ts r) : ∀ c ∈ r.symbols, .symbol c ∈ ts := by
  induction h with
  | symbol d => exact List.forall_mem_singleton.2 (List.mem_singleton.2 rfl)
  | epsilon => exact fun c hc => absurd hc List.not_mem_nil
  | emptyGroup => exact fun c hc => absurd hc List.not_mem_nil
  | group _ ih => exact fun c hc => List.mem_append_left _ (List.mem_cons_of_mem _ (ih c hc))
  | operand _ ih => exact ih
  | star _ ih => exact fun c hc => List.mem_append_left _ (ih c hc)
  | optional _ ih =>
    exact List.forall_mem_append.2 ⟨fun c hc => List.mem_append_left _ (ih c hc),
      fun c hc => absurd hc List.not_mem_nil⟩
  | repeated _ ih =>
    exact List.forall_mem_append.2 ⟨fun c hc => List.mem_append_left _ (ih c hc),
      fun c hc => List.mem_append_left _ (ih c hc)⟩
  | repetition _ ih => exact ih
  | concat _ _ ihl ihr =>
    exact List.forall_mem_append.2 ⟨fun c hc => List.mem_append_left _ (ihl c hc),
      fun c hc => List.mem_append_right _ (ihr c hc)⟩
  | sequence _ ih => exact ih
  | union sign _ _ ihl ihr =>
    exact List.forall_mem_append.2 ⟨fun c hc => List.mem_append_left _ (ihl c hc),
      fun c hc => List.mem_append_right _ (List.mem_cons_of_mem _ (ihr c hc))⟩

/-- A symbol among the tokens is a character without another meaning. -/
theorem Token.of_symbol_mem_ofChars (h : .symbol c ∈ Token.ofChars cs) :
    c ∈ cs ∧ isOperator c = false ∧ c ≠ 'ε' := by
  induction cs with
  | nil => cases h
  | cons d cs ih =>
    rcases List.mem_cons.1 h with hc | h
    · obtain rfl : c = d := (congrArg Token.char hc).trans (Token.char_classify d _)
      exact ⟨List.mem_cons_self .., Token.classify_eq_symbol_iff.1 hc.symm⟩
    · obtain ⟨hmem, hc⟩ := ih h
      exact ⟨List.mem_cons_of_mem d hmem, hc⟩

/-- **What a pattern stands for has plain symbols only.** -/
theorem isPlain_of_denotes {pattern : List Char} (h : Denotes pattern r) : r.IsPlain := by
  obtain ⟨ts, hts, hpattern⟩ := h
  intro c hc
  cases hpattern with
  | empty => cases hc
  | choice hphrase =>
    have htoken := hphrase.mem_symbols c hc
    rw [Token.reads_iff.1 hts] at htoken
    obtain ⟨hmem, hoperator, hne⟩ := Token.of_symbol_mem_ofChars htoken
    have hblank : Text.isBlank c = false := by
      rw [← Bool.not_eq_true']
      exact (List.mem_filter.1 hmem).2
    exact isPlain_iff.2 ⟨hoperator, hblank, hne⟩

/-- The text of a plain expression is read as the expression. -/
theorem parse_text_of_isPlain (h : r.IsPlain) : parse r.text = .ok r := by
  rw [parse_eq_ok_iff, toList_text]
  exact read_eq_ok_iff.2 h.denotes

/-- **Printing and reading are inverse exactly on expressions with plain symbols.**  Everything
that is ever read is such an expression, so printing it and reading it again changes nothing. -/
theorem parse_text_iff_isPlain (r : Regex) :
    (parse r.text = .ok r ↔ r.IsPlain) ∧ ∀ p, parse p = .ok r → parse r.text = .ok r := by
  have hplain : ∀ p, parse p = .ok r → r.IsPlain := fun p hp =>
    isPlain_of_denotes (read_eq_ok_iff.1 (parse_eq_ok_iff.1 hp))
  exact ⟨⟨hplain r.text, parse_text_of_isPlain⟩, fun p hp => parse_text_of_isPlain (hplain p hp)⟩

/-- An expression whose text needs brackets on the right of a union, around a factor and under a
star, but not on the left of a concatenation. -/
def nested : Regex :=
  .concat (.concat (.star (.union (.symbol 'a') (.union (.symbol 'b') .epsilon))) (.symbol 'd'))
    (.concat (.union (.symbol 'c') .epsilon) (.star (.union (.symbol 'c') .epsilon)))

/-- Other patterns than its text read as the expression, so something is printed and read again. -/
theorem parse_text_nested :
    parse "(a+(b|ε))* d c?+" = .ok nested ∧ parse nested.text = .ok nested :=
  ⟨rfl, (parse_text_iff_isPlain nested).2 "(a+(b|ε))* d c?+" rfl⟩

end Regex
end LanguageForms
