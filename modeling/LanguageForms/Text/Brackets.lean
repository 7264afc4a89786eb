/-
# Brackets that match

`Text.Balanced cs` says that every `(` among the characters has its own `)` later
on, and the other way round.  A `(` and a `)` match if what stands between them is
balanced, and a `(` without a `)` that matches it is open (`Text.IsOpen`).
-/

namespace LanguageForms
namespace Text

/-- All brackets among the characters have a partner. -/
inductive Balanced : List Char → Prop where
  | nil : Balanced []
  | char {c : Char} {cs : List Char} :
      c ≠ '(' → c ≠ ')' → Balanced cs → Balanced (c :: cs)
  | group {inner cs : List Char} :
      Balanced inner → Balanced cs → Balanced ('(' :: inner ++ ')' :: cs)

/-- Two balanced texts make a balanced text. -/
theorem Balanced.append {cs ds : List Char} (hc : Balanced cs) (hd : Balanced ds) :
    Balanced (cs ++ ds) := by
  induction hc with
  | nil => exact hd
  | char h₁ h₂ _ ih => exact .char h₁ h₂ ih
  | group hi _ _ ih =>
    simpa only [List.cons_append, List.append_assoc] using Balanced.group hi ih

/-- At the place stands a `(`, and no `)` matches it. -/
def IsOpen (cs : List Char) (i : Nat) : Prop :=
  cs[i]? = some '(' ∧
    ∀ inner rest, cs.drop (i + 1) = inner ++ ')' :: rest → ¬ Balanced inner

/-- At the place stands the last `(` that no `)` matches. -/
def IsLastOpen (cs : List Char) (i : Nat) : Prop :=
  IsOpen cs i ∧ ∀ k, IsOpen cs k → k ≤ i

end Text
end LanguageForms
