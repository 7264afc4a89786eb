/-
# Quoted text

A text is quoted with `"` and a character with `'`.  Inside, the quote itself, the
backslash, the tabulator, the line ends and the zero character are written with a
backslash, and a character that cannot be told by its looks is written `\u` with
its code point in braces.  Everything else stands for itself.
-/
import LanguageForms.Text.Numbered

namespace LanguageForms
namespace Text

/-- A hexadecimal digit. -/
def hexDigit (n : Nat) : Char :=
  if n < 10 then Char.ofNat ('0'.toNat + n) else Char.ofNat ('a'.toNat + (n - 10))

/-- The hexadecimal digits of a number in front of some characters. -/
def hexDigits (n : Nat) (rest : List Char) : List Char :=
  if n < 16 then hexDigit n :: rest else hexDigits (n / 16) (hexDigit (n % 16) :: rest)
termination_by n
decreasing_by omega

/-- What stands for a character inside of a given quote. -/
def escape (quote c : Char) : List Char :=
  if c == '\x00' then ['\\', '0']
  else if c == '\t' then ['\\', 't']
  else if c == '\n' then ['\\', 'n']
  else if c == '\r' then ['\\', 'r']
  else if c == '\\' then ['\\', '\\']
  else if c == quote then ['\\', c]
  else if isNumbered c then '\\' :: 'u' :: '\x7b' :: hexDigits c.toNat ['\x7d']
  else [c]

/-- A text in quotes. -/
def quoted (s : String) : String :=
  "\"" ++ String.ofList (s.toList.flatMap (escape '"')) ++ "\""

/-- A character in quotes. -/
def quotedChar (c : Char) : String := "'" ++ String.ofList (escape '\'' c) ++ "'"

end Text
end LanguageForms
