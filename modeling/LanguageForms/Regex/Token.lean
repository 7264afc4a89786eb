/-
# The tokens of a regular expression

Blanks are skipped, and every other character is one token.  A `+` stands
between alternatives if an operand follows it, and for "one or more" otherwise,
so `0+1` is a union and `b+` is not.  Tokens keep the positions of their
characters in the whole pattern, counted from zero.
-/
import LanguageForms.Text.Blank

namespace LanguageForms
namespace Regex

/-- A token of a pattern. -/
inductive Token where
  /-- A character that stands for itself. -/
  | symbol (c : Char)
  /-- The sign `ε` for the empty word. -/
  | epsilon
  /-- `(` -/
  | opening
  /-- `)` -/
  | closing
  /-- `|`, or `+` in front of an operand. -/
  | either (sign : Char)
  /-- `*` -/
  | star
  /-- `?` -/
  | optional
  /-- `+` that no operand follows. -/
  | repeated
deriving DecidableEq

/-- The characters with a meaning of their own. -/
def isOperator (c : Char) : Bool :=
  c == '(' || c == ')' || c == '|' || c == '+' || c == '*' || c == '?'

/-- Whether an operand can begin with a character. -/
def startsOperand (c : Char) : Bool := c == '(' || !isOperator c

namespace Token

/-- The token of a character, given the next character that is no blank. -/
def classify (c : Char) (next : Option Char) : Token :=
  if c == '(' then opening
  else if c == ')' then closing
  else if c == '|' then either '|'
  else if c == '*' then star
  else if c == '?' then optional
  else if c == '+' then (if next.any startsOperand then either '+' else repeated)
  else if c == 'ε' then epsilon
  else symbol c

/-- The character of a token. -/
def char : Token → Char
  | symbol c => c
  | epsilon => 'ε'
  | opening => '('
  | closing => ')'
  | either sign => sign
  | star => '*'
  | optional => '?'
  | repeated => '+'

/-- A token keeps its character. -/
theorem char_classify (c : Char) (next : Option Char) : (classify c next).char = c := by
  unfold classify
  split
  · next h => exact (beq_iff_eq.1 h).symm
  · split
    · next h => exact (beq_iff_eq.1 h).symm
    · split
      · next h => exact (beq_iff_eq.1 h).symm
      · split
        · next h => exact (beq_iff_eq.1 h).symm
        · split
          · next h => exact (beq_iff_eq.1 h).symm
          · split
            · next h =>
              split
              · exact (beq_iff_eq.1 h).symm
              · exact (beq_iff_eq.1 h).symm
            · split
              · next h => exact (beq_iff_eq.1 h).symm
              · rfl

/-- The characters that are no blanks with their positions, counted from a given number. -/
def visible (position : Nat) : List Char → List (Nat × Char)
  | [] => []
  | c :: cs =>
    if Text.isBlank c then visible (position + 1) cs
    else (position, c) :: visible (position + 1) cs

/-- The tokens of characters with positions. -/
def ofVisible : List (Nat × Char) → List (Nat × Token)
  | [] => []
  | (position, c) :: rest =>
    (position, classify c (rest.head?.map Prod.snd)) :: ofVisible rest

/-- The tokens of a pattern with their positions. -/
def scan (pattern : List Char) : List (Nat × Token) := ofVisible (visible 0 pattern)

end Token
end Regex
end LanguageForms
