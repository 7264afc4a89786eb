/-
# What stands behind a character

The columns of a text are not always those of its characters.  A selector behind a
character gives it its coloured or its plain form, and some characters melt into one
sign: a picture and its skin tone, pictures with a joiner between them, two letters of
a flag, a flag with its tags, and the ligatures of some scripts.

All of them show when a text is read from its end.  A `Follower` is what the
characters behind a place still wait for, `Behind` adds the selectors, and `step` says
what a character adds to the columns and what it leaves for the one in front of it.
-/
import LanguageForms.Text.Width.Single

namespace LanguageForms
namespace Text

/-- What the characters behind a place wait for. -/
inductive Follower where
  /-- Nothing. -/
  | nothing
  /-- A line feed waits for a carriage return. -/
  | lineFeed
  /-- A picture waits for a joiner. -/
  | picture
  /-- A skin tone waits for its picture. -/
  | tone
  /-- One letter of a flag waits for another one. -/
  | flagLetter
  /-- Some letters of flags. -/
  | flagLetters
  /-- A picture behind a joiner waits for a picture. -/
  | joined
  /-- A keycap behind a joiner waits for its selector. -/
  | joinedKeycap
  /-- One letter of a flag in front of a joiner. -/
  | joinedLetter
  /-- An even number of letters of flags in front of a joiner. -/
  | evenLetters
  /-- An odd number of letters of flags in front of a joiner. -/
  | oddLetters
  /-- The end of the tags of a joined flag. -/
  | tagEnd
  /-- The end of the tags and some digits. -/
  | tagDigits (count : Nat)
  /-- The end of the tags and some letters. -/
  | tagLetters (count : Nat)
  /-- An Arabic alef waits for a lam. -/
  | alef
  /-- A Hebrew lamed waits for a joiner and an alef. -/
  | lamed (isJoined : Bool)
  /-- A Buginese ya waits for a joiner and a vowel sign. -/
  | ya (isJoined : Bool)
  /-- A joined Buginese ya and the vowel sign in front of it wait for the letter `a`. -/
  | yaWithVowel
  /-- A Tifinagh consonant waits for a joiner and another one. -/
  | consonant (isJoined : Bool)
  /-- A Tifinagh consonant and its own joiner wait for another one. -/
  | consonantJoiner
  /-- The second half of a Lisu tone waits for the first one. -/
  | halfTone
  /-- An Old Turkic letter waits for a joiner and another one. -/
  | orkhon (isJoined : Bool)
  /-- A Khmer letter waits for the sign that writes it below the line. -/
  | subscript
deriving DecidableEq

/-- What stands behind a character: what is waited for, and the selectors. -/
structure Behind where
  /-- What the characters behind the selectors wait for. -/
  follower : Follower
  /-- Whether a selector asks for the plain form. -/
  isPlain : Bool
  /-- Whether a selector asks for the coloured form. -/
  isColoured : Bool
deriving DecidableEq

namespace Follower

/-- Whether a letter waits for its part of a ligature. -/
def isLigature : Follower → Bool
  | alef | lamed _ | ya _ | yaWithVowel | consonant _ | consonantJoiner | halfTone | orkhon _
  | subscript => true
  | _ => false

/-- Whether a joiner waits for a picture. -/
def isJoining : Follower → Bool
  | joined | joinedKeycap => true
  | _ => false

/-- What is waited for in front of a joiner. -/
def join : Follower → Follower
  | lamed _ => lamed true
  | ya _ => ya true
  | consonant _ => consonant true
  | orkhon _ => orkhon true
  | f => f

end Follower

namespace Behind

/-- Something to wait for, without a selector. -/
def of (f : Follower) : Behind := ⟨f, false, false⟩

/-- Nothing stands behind. -/
def nothing : Behind := of .nothing

/-- A selector for the coloured form in front. -/
def addColoured (b : Behind) : Behind :=
  if b.follower.isLigature || b.follower.isJoining then { b with isColoured := true }
  else ⟨.nothing, false, true⟩

/-- A selector for the plain form in front. -/
def addPlain (b : Behind) : Behind :=
  if b.follower.isLigature then { b with isPlain := true } else ⟨.nothing, true, false⟩

/-- The selector for the coloured form is dropped; only a ligature waits on behind it. -/
def dropColoured (b : Behind) : Behind :=
  if b.isColoured then if b.follower.isLigature then { b with isColoured := false } else nothing
  else b

end Behind

/-- Whether a character is an Arabic lam. -/
def isLam (c : Char) : Bool :=
  inRanges [(0x644, 0x644), (0x6B5, 0x6B8), (0x76A, 0x76A), (0x8A6, 0x8A6), (0x8C7, 0x8C7)] c.toNat

/-- Whether a character is an Arabic alef. -/
def isAlef (c : Char) : Bool :=
  inRanges [(0x622, 0x623), (0x625, 0x625), (0x627, 0x627), (0x671, 0x673), (0x675, 0x675),
    (0x773, 0x774), (0x870, 0x882)] c.toNat

/-- Whether a Khmer letter can be written below the line. -/
def hasSubscript (c : Char) : Bool :=
  inRanges [(0x1780, 0x1782), (0x1784, 0x1787), (0x1789, 0x178C), (0x178E, 0x1793),
    (0x1795, 0x1798), (0x179B, 0x179D), (0x17A0, 0x17A0), (0x17A2, 0x17A2), (0x17A7, 0x17A7),
    (0x17AB, 0x17AC), (0x17AF, 0x17AF)] c.toNat

/-- Whether a character is a Tifinagh consonant. -/
def isTifinagh (c : Char) : Bool := inRanges [(0x2D31, 0x2D65), (0x2D6F, 0x2D6F)] c.toNat

/-- The joiner, which takes no column. -/
def joiner : Char := '\u200d'

/-- Whether a character leaves a ligature as it is. -/
def isTransparent (c : Char) : Bool :=
  inRanges [(0x34F, 0x34F), (0x17B4, 0x17B5), (0x180B, 0x180D), (0x180F, 0x180F), (0xFE00, 0xFE0F),
    (0xE0100, 0xE01EF)] c.toNat

/-- Whether a character is the tag of a letter. -/
def isTagLetter (c : Char) : Bool := 0xE0061 ≤ c.toNat && c.toNat ≤ 0xE007A

/-- Whether a character is the tag of a digit. -/
def isTagDigit (c : Char) : Bool := 0xE0030 ≤ c.toNat && c.toNat ≤ 0xE0039

/-- The flag that tags are put behind. -/
def blackFlag : Char := Char.ofNat 0x1F3F4

/-- What a character that stands alone leaves for the one in front of it. -/
def alone (c : Char) : Behind :=
  if c.toNat ≤ 0xA0 then if c == '\n' then .of .lineFeed else .nothing
  else if c == '\ufe0e' then ⟨.nothing, true, false⟩
  else if c == '\ufe0f' then ⟨.nothing, false, true⟩
  else if isPicture c then .of .picture
  else if isTone c then .of .tone
  else if isFlagLetter c then .of .flagLetter
  else if isAlef c then .of .alef
  else if hasSubscript c then .of .subscript
  else if isTifinagh c then .of (.consonant false)
  else if c == '\ua4fc' || c == '\ua4fd' then .of .halfTone
  else if c == 'ל' then .of (.lamed false)
  else if c == '\u1a10' then .of (.ya false)
  else if c.toNat = 0x10C03 then .of (.orkhon false)
  else .nothing

/-- What a character adds to the columns and leaves behind if it is waited for. -/
def Follower.take? (f : Follower) (c : Char) : Option (Int × Follower) :=
  match f with
  | .picture => if c == joiner then some (0, .joined) else none
  | .tone =>
    if takesTone c then some (0, .picture)
    else if c == joiner then some (0, .joined)
    else none
  | .flagLetter => if isFlagLetter c then some (1, .flagLetters) else none
  | .flagLetters =>
    if isFlagLetter c then some (1, .flagLetters)
    else if c == joiner then some (0, .joined)
    else none
  | .joined =>
    if c == '\u20e3' then some (0, .joinedKeycap)
    else if isFlagLetter c then some (1, .joinedLetter)
    else if isTone c then some (0, .tone)
    else if c.toNat = 0xE007F then some (0, .tagEnd)
    else if isPicture c then some (0, .picture)
    else none
  | .joinedLetter => if isFlagLetter c then some (-1, .evenLetters) else none
  | .evenLetters =>
    if isFlagLetter c then some (3, .oddLetters)
    else if c == joiner then some (0, .joined)
    else none
  | .oddLetters =>
    if isFlagLetter c then some (-1, .evenLetters)
    else if c == joiner then some (0, .joined)
    else none
  | .tagEnd =>
    if isTagLetter c then some (0, .tagLetters 1)
    else if isTagDigit c then some (0, .tagDigits 1)
    else none
  | .tagDigits n =>
    if isTagDigit c && n < 3 then some (0, .tagDigits (n + 1))
    else if c == blackFlag && n == 3 then some (0, .picture)
    else none
  | .tagLetters n =>
    if isTagLetter c && n < 6 then some (0, .tagLetters (n + 1))
    else if isTagDigit c && n < 5 then some (0, .tagDigits 1)
    else if c == blackFlag && 3 ≤ n then some (0, .picture)
    else none
  | .alef =>
    if isLam c then some (0, .nothing) else if isMark c then some (0, .alef) else none
  | .lamed true => if c == 'א' then some (0, .nothing) else none
  | .ya true => if c == '\u1a17' then some (0, .yaWithVowel) else none
  | .yaWithVowel => if c == '\u1a15' then some (0, .nothing) else none
  | .consonant isJoined =>
    if c == '\u2d7f' then some (1, .consonantJoiner)
    else if isTifinagh c && isJoined then some (0, .nothing)
    else none
  | .consonantJoiner => if isTifinagh c then some (-1, .nothing) else none
  | .halfTone => if 0xA4F8 ≤ c.toNat && c.toNat ≤ 0xA4FB then some (0, .nothing) else none
  | .orkhon true => if c.toNat = 0x10C32 then some (0, .nothing) else none
  | .subscript => if c == '\u17d2' then some (-1, .nothing) else none
  | _ => none

/-- What a character adds to the columns and leaves behind if no selector is for it. -/
def Follower.step (f : Follower) (c : Char) : Int × Behind :=
  if f.isLigature && f ≠ .alef && c == joiner then (0, .of f.join)
  else if f.isLigature && f ≠ .alef && isTransparent c then (0, .of f)
  else
    match f.take? c with
    | some (n, g) => (n, .of g)
    | none => (charWidth c, alone c)

/-- What a character adds to the columns in front of others, and what it leaves behind. -/
def step (c : Char) (b : Behind) : Int × Behind :=
  if b.isColoured && hasColour c then (if b.follower.isJoining then 0 else 2, .of .picture)
  else
    let b := b.dropColoured
    if c == '\n' then (0, .of .lineFeed)
    else if c == '\r' && b.follower == .lineFeed then (0, .nothing)
    else if c.toNat ≤ 0xA0 then (1, .nothing)
    else if b = .nothing then (charWidth c, alone c)
    else if c == '\ufe0f' then (0, b.addColoured)
    else if c == '\ufe0e' then (0, b.addPlain)
    else if b.isPlain && hasNarrowForm c then (1, .nothing)
    else b.follower.step c

/-- A character up to `U+00A0` takes one column if nothing stands behind it. -/
theorem step_of_le {c : Char} (h : c.toNat ≤ 0xA0) (line : c ≠ '\n') :
    step c .nothing = (1, .nothing) := by
  have h' : (Follower.nothing == Follower.lineFeed) = false := rfl
  simp [step, Behind.nothing, Behind.of, Behind.dropColoured, h, line, h']

/-- The Arabic lam melts into the alef behind it. -/
example : step 'ل' (alone 'ا') = (0, .nothing) := rfl

end Text
end LanguageForms
