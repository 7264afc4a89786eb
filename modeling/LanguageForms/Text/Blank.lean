/-
# Blanks

The twenty-five characters with the Unicode property `White_Space`.  Readers of
regular expressions skip them, and readers of grammars trim them.
-/

namespace LanguageForms
namespace Text

/-- Whether a character has the Unicode property `White_Space`. -/
def isBlank (c : Char) : Bool :=
  let n := c.toNat
  (9 ≤ n && n ≤ 13) || n == 0x20 || n == 0x85 || n == 0xA0 || n == 0x1680 ||
    (0x2000 ≤ n && n ≤ 0x200A) || n == 0x2028 || n == 0x2029 || n == 0x202F ||
    n == 0x205F || n == 0x3000

/-- The last character that is no blank, if there is one. -/
def lastVisible? (cs : List Char) : Option Char := (cs.filter fun c => !isBlank c).getLast?

/-- The zero-width space is no blank, the ideographic space is one. -/
example : isBlank '\u200b' = false ∧ isBlank '\u3000' = true := ⟨rfl, rfl⟩

end Text
end LanguageForms
