/-
# Plain symbols

A symbol is plain if it stands for itself in a pattern: it is no operator, no
blank, and not the sign `ε` for the empty word.  Exactly the plain symbols are
read as the symbols they are (`Token.classify_eq_symbol_iff`).
-/
import LanguageForms.Regex.Basic
import LanguageForms.Regex.Token

namespace LanguageForms
namespace Regex

/-- Whether a character stands for itself in a pattern. -/
def isPlain (c : Char) : Bool := !isOperator c && !Text.isBlank c && !(c == 'ε')

/-- All symbols of the expression are plain. -/
def IsPlain (r : Regex) : Prop := ∀ c ∈ r.symbols, isPlain c = true

instance (r : Regex) : Decidable r.IsPlain :=
  inferInstanceAs (Decidable (∀ c ∈ r.symbols, isPlain c = true))

/-- A character becomes its own symbol exactly if it is no operator and not `ε`. -/
theorem Token.classify_eq_symbol_iff {c : Char} {next : Option Char} :
    Token.classify c next = .symbol c ↔ isOperator c = false ∧ c ≠ 'ε' := by
  simp only [Token.classify, isOperator, beq_iff_eq, Bool.or_eq_false_iff]
  constructor
  · intro h
    repeat' split at h
    all_goals first | exact Token.noConfusion h | simp_all
  · rintro ⟨⟨⟨⟨⟨⟨h₁, h₂⟩, h₃⟩, h₄⟩, h₅⟩, h₆⟩, h₇⟩
    simp_all

end Regex
end LanguageForms
