/-
# Building expressions that stay small

`unite`, `append` and `iterate` build the union, the concatenation and the star
of expressions.  They drop the empty word next to another factor, a repeated
alternative and a star of a star, and they nest to the left, which is how
expressions are written without brackets.
-/
import LanguageForms.Regex.Basic

namespace LanguageForms
namespace Regex

/-- The union of two expressions. -/
def unite : Regex → Regex → Regex
  | l, union a b => if l = union a b then l else unite (unite l a) b
  | l, r => if l = r then l else union l r

/-- The concatenation of two expressions. -/
def append : Regex → Regex → Regex
  | epsilon, r => r
  | l, epsilon => l
  | l, concat a b => append (append l a) b
  | l, r => concat l r

/-- The star of an expression. -/
def iterate : Regex → Regex
  | epsilon => epsilon
  | star r => star r
  | r => star r

end Regex
end LanguageForms
