/-
# The text of a regular expression

`|` stands for union, juxtaposition for concatenation, a following `*` for the
star and `ε` for the empty word.  The star binds strongest and union weakest.
Both binary operators associate to the left, so brackets are written around an
operand that binds less strongly than its place asks for:

| place | least strength |
| --- | ---: |
| left of a union | 0 |
| right of a union, left of a concatenation | 1 |
| right of a concatenation | 2 |
| under a star | 3 |
-/
import LanguageForms.Regex.Basic

namespace LanguageForms
namespace Regex

/-- How strongly the operator at the root binds. -/
def strength : Regex → Nat
  | union .. => 0
  | concat .. => 1
  | star _ => 2
  | symbol _ => 3
  | epsilon => 3

/-- Writes brackets around a text if asked to. -/
def bracketIf (b : Bool) (cs : List Char) : List Char :=
  if b then '(' :: cs ++ [')'] else cs

/-- The characters of the text. -/
def chars : Regex → List Char
  | symbol c => [c]
  | epsilon => ['ε']
  | union l r => l.chars ++ '|' :: bracketIf (r.strength < 1) r.chars
  | concat l r => bracketIf (l.strength < 1) l.chars ++ bracketIf (r.strength < 2) r.chars
  | star r => bracketIf (r.strength < 3) r.chars ++ ['*']

/-- The text of an expression. -/
def text (r : Regex) : String := String.ofList r.chars

/-- The text has the characters that are written. -/
@[simp] theorem toList_text (r : Regex) : r.text.toList = r.chars := String.toList_ofList

end Regex
end LanguageForms
