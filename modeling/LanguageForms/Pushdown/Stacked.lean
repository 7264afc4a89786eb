/-
# Runs of rules on whole stacks

A rule looks at the whole stack only through the cell that it takes.  So the lowest
cells of a stack are not touched by a run if every rule takes a cell above them, and
`Rule.Reads` says of a run how many cells at least are left below, which word is read
and which stack is there at the end.

What runs do has no order.  `firingsByRule` has the firings in another order than the
one in which they are swept.
-/
import LanguageForms.Pushdown.Summary

namespace LanguageForms
namespace Pushdown
namespace Rule

/-- A state, and a whole stack with its top first. -/
structure Stacked where
  state : State
  stack : List Cell
deriving DecidableEq

/-- Rules are used one after the other and read the word; each of them takes a cell that has at
least so many cells below it. -/
inductive Reads (rules : List Rule) (height : Nat) : Stacked → List Char → Stacked → Prop where
  | refl (c : Stacked) : Reads rules height c [] c
  | use {r : Rule} {below : List Cell} {w : List Char} {d : Stacked} :
      r ∈ rules → height ≤ below.length →
      Reads rules height ⟨r.target, r.push ++ below⟩ w d →
      Reads rules height ⟨r.source, r.pop :: below⟩ (r.label.spelled ++ w) d

end Rule

/-- The firings rule by rule, for each of them the first positions first. -/
def firingsByRule (rules : List Rule) (word : List Char) : List Firing :=
  rules.flatMap fun r => (List.range (word.length + 1)).filterMap fun i => r.firing? word i

end Pushdown
end LanguageForms
