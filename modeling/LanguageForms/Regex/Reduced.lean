/-
# Reduced expressions

An expression is reduced if it has no factor `ε`, no alternative written twice
next to itself, no star of `ε` or of a star, and if its unions and concatenations
nest to the left.  `Regex.IsRedundant` lists the nodes that this excludes.
-/
import LanguageForms.Regex.Basic

namespace LanguageForms
namespace Regex

/-- The root is a union. -/
def isUnion : Regex → Bool
  | union .. => true
  | _ => false

/-- The root is a concatenation. -/
def isConcat : Regex → Bool
  | concat .. => true
  | _ => false

/-- The root is a star. -/
def isStar : Regex → Bool
  | star _ => true
  | _ => false

/-- The expression is reduced. -/
def IsReduced : Regex → Prop
  | symbol _ => True
  | epsilon => True
  | union l r => l.IsReduced ∧ r.IsReduced ∧ r.isUnion = false ∧ l ≠ r
  | concat l r =>
    l.IsReduced ∧ r.IsReduced ∧ l ≠ epsilon ∧ r ≠ epsilon ∧ r.isConcat = false
  | star r => r.IsReduced ∧ r ≠ epsilon ∧ r.isStar = false

/-- The root could be left out, or could be nested to the left. -/
inductive IsRedundant : Regex → Prop where
  | epsilonConcat (r : Regex) : IsRedundant (concat epsilon r)
  | concatEpsilon (l : Regex) : IsRedundant (concat l epsilon)
  | concatConcat (l a b : Regex) : IsRedundant (concat l (concat a b))
  | unionUnion (l a b : Regex) : IsRedundant (union l (union a b))
  | unionSelf (r : Regex) : IsRedundant (union r r)
  | starEpsilon : IsRedundant (star epsilon)
  | starStar (r : Regex) : IsRedundant (star (star r))

/-- The two sides of a union are told apart by their trees, not by their words. -/
example : IsReduced (union (star (symbol 'a')) (union (symbol 'a') epsilon)) ↔ False :=
  ⟨fun h => Bool.noConfusion h.2.2.1, False.elim⟩

end Regex
end LanguageForms
