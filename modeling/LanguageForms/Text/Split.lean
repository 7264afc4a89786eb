/-
# Cutting text into pieces

Splitting at every character of a class, trimming blanks at both ends, and
cutting at the first occurrence of a separator.  All of them work on lists of
characters, and none loses a character that is not a separator or a blank.
-/
import LanguageForms.Text.Blank

namespace LanguageForms
namespace Text

/-- Puts a character in front of the first piece. -/
def consPiece (c : Char) : List (List Char) → List (List Char)
  | [] => [[c]]
  | p :: ps => (c :: p) :: ps

/-- The pieces between the characters that pass a test; always at least one piece. -/
def splitWhere (p : Char → Bool) : List Char → List (List Char)
  | [] => [[]]
  | c :: cs => if p c then [] :: splitWhere p cs else consPiece c (splitWhere p cs)

/-- With a character in front there is a piece. -/
theorem consPiece_ne_nil (c : Char) (ps : List (List Char)) : consPiece c ps ≠ [] := by
  cases ps <;> exact List.cons_ne_nil _ _

/-- Every text has a piece. -/
theorem splitWhere_ne_nil (p : Char → Bool) (cs : List Char) : splitWhere p cs ≠ [] := by
  cases cs with
  | nil => exact List.cons_ne_nil _ _
  | cons c cs =>
    rw [splitWhere]
    split
    · exact List.cons_ne_nil _ _
    · exact consPiece_ne_nil _ _

/-- A piece has no characters but the new one and those of before. -/
theorem mem_consPiece {c x : Char} {ps : List (List Char)} {p : List Char}
    (hp : p ∈ consPiece c ps) (hx : x ∈ p) : x = c ∨ ∃ q ∈ ps, x ∈ q := by
  cases ps with
  | nil =>
    rw [List.mem_singleton.1 hp] at hx
    exact .inl (List.mem_singleton.1 hx)
  | cons q ps =>
    rcases List.mem_cons.1 hp with rfl | hp
    · exact (List.mem_cons.1 hx).imp_right fun h => ⟨q, List.mem_cons_self, h⟩
    · exact .inr ⟨p, List.mem_cons_of_mem q hp, hx⟩

/-- A piece has no characters but those of the text. -/
theorem mem_of_mem_splitWhere {p : Char → Bool} {cs piece : List Char} {x : Char}
    (hp : piece ∈ splitWhere p cs) (hx : x ∈ piece) : x ∈ cs := by
  induction cs generalizing piece with
  | nil =>
    rw [List.mem_singleton.1 hp] at hx
    exact hx
  | cons c cs ih =>
    rw [splitWhere] at hp
    split at hp
    · rcases List.mem_cons.1 hp with rfl | hp
      · exact absurd hx List.not_mem_nil
      · exact List.mem_cons_of_mem c (ih hp hx)
    · rcases mem_consPiece hp hx with rfl | ⟨q, hq, hx⟩
      · exact List.mem_cons_self
      · exact List.mem_cons_of_mem c (ih hq hx)

/-- Drops the blanks at the end. -/
def trimRight (cs : List Char) : List Char := (cs.reverse.dropWhile isBlank).reverse

/-- Drops the blanks at both ends. -/
def trim (cs : List Char) : List Char := trimRight (cs.dropWhile isBlank)

/-- What follows a given beginning, if the text has that beginning. -/
def after? : List Char → List Char → Option (List Char)
  | [], cs => some cs
  | _ :: _, [] => none
  | s :: sep, c :: cs => if s = c then after? sep cs else none

/-- What is left behind a separator is the rest of the text. -/
theorem after?_eq_some {sep cs rest : List Char} :
    after? sep cs = some rest ↔ cs = sep ++ rest := by
  induction sep generalizing cs with
  | nil => exact ⟨Option.some.inj, congrArg some⟩
  | cons s sep ih => cases cs with
    | nil => exact ⟨(nomatch ·), (nomatch ·)⟩
    | cons c cs =>
      rw [after?]
      split
      · next h => rw [ih, h, List.cons_append, List.cons.injEq, eq_self, true_and]
      · next h =>
        refine ⟨(nomatch ·), fun h' => absurd ?_ h⟩
        rw [List.cons_append, List.cons.injEq] at h'
        exact h'.1.symm

/-- The text before and after the first occurrence of a separator. -/
def cut? (sep : List Char) : List Char → Option (List Char × List Char)
  | [] => (after? sep []).map fun rest => ([], rest)
  | c :: cs =>
    match after? sep (c :: cs) with
    | some rest => some ([], rest)
    | none => (cut? sep cs).map fun p => (c :: p.1, p.2)

/-- A text is cut into what is before the separator and what is behind it. -/
theorem eq_of_cut? {sep cs : List Char} {p : List Char × List Char} (h : cut? sep cs = some p) :
    cs = p.1 ++ sep ++ p.2 := by
  induction cs generalizing p with
  | nil =>
    obtain ⟨rest, hr, rfl⟩ := Option.map_eq_some_iff.1 h
    exact after?_eq_some.1 hr
  | cons c cs ih =>
    rw [cut?] at h
    split at h
    · next rest hr =>
      cases h
      exact after?_eq_some.1 hr
    · obtain ⟨q, hq, rfl⟩ := Option.map_eq_some_iff.1 h
      rw [ih hq]
      rfl

end Text
end LanguageForms
