/-
# Runs of rules above a rest of the stack

A run of rules is followed only as far as it leaves the stack below a given cell
alone.  Of the stack it keeps the cells above that rest; without such a cell no
rule can be used, so nothing below is ever looked at (`Rule.Run.under`).
-/
import LanguageForms.Pushdown.Summary

namespace LanguageForms
namespace Pushdown
namespace Rule

/-- A point, and the cells above the rest of the stack with the top first. -/
structure Config where
  point : Point
  cells : List Cell
deriving DecidableEq

/-- A rule is used. -/
inductive Step (rules : List Rule) (word : List Char) : Config → Config → Prop where
  | use {r : Rule} {i j : Nat} (cells : List Cell) :
      r ∈ rules → nextPosition? word i r.label = some j →
      Step rules word ⟨⟨r.source, i⟩, r.pop :: cells⟩ ⟨⟨r.target, j⟩, r.push ++ cells⟩

/-- Any number of rules are used, one after the other. -/
inductive Run (rules : List Rule) (word : List Char) : Config → Config → Prop where
  | refl (c : Config) : Run rules word c c
  | head {c d e : Config} : Step rules word c d → Run rules word d e → Run rules word c e

variable {rules : List Rule} {word : List Char}

namespace Run

/-- A step is a run. -/
theorem single {c d : Config} (h : Step rules word c d) : Run rules word c d := .head h (.refl d)

/-- Two runs make a run. -/
theorem trans {c d e : Config} (h₁ : Run rules word c d) (h₂ : Run rules word d e) :
    Run rules word c e := by
  induction h₁ with
  | refl => exact h₂
  | head h _ ih => exact .head h (ih h₂)

/-- A run goes the same way above any more cells, and leaves them as they are. -/
theorem under {c d : Config} (h : Run rules word c d) (rest : List Cell) :
    Run rules word ⟨c.point, c.cells ++ rest⟩ ⟨d.point, d.cells ++ rest⟩ := by
  induction h with
  | refl => exact .refl _
  | head hs _ ih =>
    cases hs with
    | use cells hr hj =>
      refine .head ?_ ih
      rw [List.append_assoc]
      exact .use (cells ++ rest) hr hj

end Run
end Rule
end Pushdown
end LanguageForms
