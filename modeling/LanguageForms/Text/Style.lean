/-
# Styles of text

A terminal draws text in a style: bold, underlined, in a colour, and so on.  A style is
a list of settings.  The sequence `ESC [ codes m` changes it: most codes switch one
setting on, the code of its end switches it off again, and `0` switches off everything.
The settings are kept in ascending order of their codes, so that `opening` and
`closing`, the sequences that set up a style and take it back, ascend as well.

The codes are written in decimal, without zeros in front, and with semicolons between
them; what follows the first one without a meaning is not read.  A sequence without
codes, or with other characters among them, is not clear.  The style then has to be taken
back as a whole, and its closing ends with the code `0`.
-/
import LanguageForms.SortedMap
import LanguageForms.SortedSet
import LanguageForms.Text.Collection
import LanguageForms.Text.Control
import LanguageForms.Text.Ranges

namespace LanguageForms
namespace Text

/-- The style in which a text is drawn. -/
structure Style where
  /-- The settings, and the codes that switch each of them on. -/
  settings : SortedMap Nat (List Nat)
  /-- Whether there was a sequence whose meaning is not clear. -/
  isUnclear : Bool
deriving DecidableEq

namespace Style

/-- The style of a text without sequences. -/
def plain : Style := ⟨.empty, false⟩

/-- The setting of the colour of the text. -/
def foreground : Nat := 30

/-- The setting of the colour behind the text. -/
def background : Nat := 40

/-- The setting of the colour of the line below the text. -/
def underlineColour : Nat := 58

/-- The settings, each with the code that ends it: weight, slant, line below, blinking, swapped
colours, hidden, struck out, spacing, colours, frame, line above, side lines, and height. -/
def endings : List (Nat × Nat) :=
  [(1, 22), (2, 22), (3, 23), (4, 24), (5, 25), (6, 25), (7, 27), (8, 28), (9, 29), (20, 23),
   (21, 24), (26, 50), (foreground, 39), (background, 49), (51, 54), (52, 54), (53, 55),
   (underlineColour, 59), (60, 65), (61, 65), (62, 65), (63, 65), (64, 65), (73, 75), (74, 75)]

/-- The setting that a single code switches on. -/
def settingOf? (code : Nat) : Option Nat :=
  if inRanges [(30, 37), (90, 97)] code then some foreground
  else if inRanges [(40, 47), (100, 107)] code then some background
  else if code ≠ underlineColour ∧ (endings.lookup code).isSome then some code
  else none

/-- Switches a setting on. -/
def set (s : Style) (setting : Nat) (codes : List Nat) : Style :=
  { s with settings := s.settings.insert setting codes }

/-- The style behind a sequence whose meaning is not clear. -/
def unclear (s : Style) : Style := { s with isUnclear := true }

/-- The style behind a single code, if the code has a meaning; the codes that choose a typeface
change nothing. -/
def change? (s : Style) (code : Nat) : Option Style :=
  if code = 0 then some plain
  else if inRanges [(10, 19)] code then some s
  else if endings.any (·.2 == code) then
    some { s with settings := s.settings.filter fun setting => endings.lookup setting ≠ some code }
  else (settingOf? code).map fun setting => s.set setting [code]

/-- The number that some decimal digits write. -/
def decimal (digits : List Char) : Nat :=
  digits.foldl (fun n c => 10 * n + (c.toNat - '0'.toNat)) 0

/-- The code that is written by some characters: digits, the first of which is a zero only if
it is the only one. -/
def code? (cs : List Char) : Option Nat :=
  if cs.all Char.isDigit && !cs.isEmpty && (cs.head? != some '0' || cs.length == 1) then
    some (decimal cs)
  else none

/-- The style behind a single code at the beginning, and what follows the code. -/
def single? (s : Style) (cs : List Char) : Option (Style × List Char) :=
  ((code? (cs.takeWhile Char.isDigit)).bind s.change?).map fun t => (t, cs.dropWhile Char.isDigit)

/-- Some numbers below 256 with a semicolon in front of each, and what follows them. -/
def numbers? : Nat → List Char → Option (List Nat × List Char)
  | 0, cs => some ([], cs)
  | _ + 1, [] => none
  | k + 1, c :: cs =>
    let digits := cs.takeWhile Char.isDigit
    if c = ';' ∧ digits ≠ [] ∧ decimal digits < 256 then
      (numbers? k (cs.dropWhile Char.isDigit)).map fun p => (decimal digits :: p.1, p.2)
    else none

/-- The codes that begin a colour, and its setting. -/
def colourCodes : List (Nat × Nat) := [(38, foreground), (48, background), (58, underlineColour)]

/-- The forms of a colour: a place in the palette is one number, a mixture takes three. -/
def colourForms : List (Nat × Nat) := [(5, 1), (2, 3)]

/-- The style behind a colour that takes several codes, and what follows them. -/
def colour? (s : Style) (cs : List Char) : Option (Style × List Char) :=
  colourCodes.findSome? fun colour => colourForms.findSome? fun form =>
    (after? (colour.1.repr ++ ";" ++ form.1.repr).toList cs).bind fun rest =>
      (numbers? form.2 rest).map fun p => (s.set colour.2 (colour.1 :: form.1 :: p.1), p.2)

/-- The style behind the first code, and what follows the code. -/
def first? (s : Style) (cs : List Char) : Option (Style × List Char) :=
  (s.colour? cs).or (s.single? cs)

/-- Reading numbers leaves no more than there was. -/
theorem length_of_numbers? {k : Nat} {cs : List Char} {p : List Nat × List Char}
    (h : numbers? k cs = some p) : p.2.length ≤ cs.length := by
  induction k generalizing cs p with
  | zero =>
    cases h
    exact Nat.le_refl _
  | succ k ih => cases cs with
    | nil => exact nomatch h
    | cons c cs =>
      simp only [numbers?] at h
      split at h
      · obtain ⟨q, hq, rfl⟩ := Option.map_eq_some_iff.1 h
        have hle := ih hq
        exact Nat.le_succ_of_le (Nat.le_trans hle (List.dropWhile_sublist _).length_le)
      · exact nomatch h

/-- Reading never adds to what is left. -/
theorem length_of_first? {s : Style} {cs : List Char} {p : Style × List Char}
    (h : s.first? cs = some p) : p.2.length ≤ cs.length := by
  rcases Option.or_eq_some_iff.1 h with h | ⟨_, h⟩
  · obtain ⟨colour, _, h⟩ := List.exists_of_findSome?_eq_some h
    obtain ⟨form, _, h⟩ := List.exists_of_findSome?_eq_some h
    obtain ⟨rest, hr, h⟩ := Option.bind_eq_some_iff.1 h
    obtain ⟨q, hq, rfl⟩ := Option.map_eq_some_iff.1 h
    rw [after?_eq_some.1 hr, List.length_append]
    exact Nat.le_trans (length_of_numbers? hq) (Nat.le_add_left _ _)
  · obtain ⟨t, _, rfl⟩ := Option.map_eq_some_iff.1 h
    exact (List.dropWhile_sublist _).length_le

/-- The style behind some codes. -/
def readCodes (s : Style) (cs : List Char) : Style :=
  match _h : s.first? cs with
  | none => s
  | some (t, ';' :: rest) => t.readCodes rest
  | some (t, _) => t
termination_by cs.length
decreasing_by exact length_of_first? _h

/-- The style behind the parameters of a sequence. -/
def read (s : Style) (parameters : List Char) : Style :=
  if !parameters.isEmpty && parameters.all fun c => c.isDigit || c == ';' then
    s.readCodes parameters
  else s.unclear

/-- The style behind a text. -/
def after (s : Style) (text : List Char) : Style :=
  (styleParameters .outside text).foldl read s

/-- The sequence of some codes. -/
def sequence (codes : List Nat) : List Char :=
  escapeChar :: '[' :: (separated ";" (codes.map Nat.repr)).toList ++ ['m']

/-- The sequences that set a style up. -/
def opening (s : Style) : List Char := s.settings.entries.flatMap fun e => sequence e.2

/-- The codes that take the settings of a style back. -/
def endCodes (s : Style) : SortedSet Nat :=
  .ofList (s.settings.entries.filterMap fun e => endings.lookup e.1)

/-- The sequences that take a style back. -/
def closing (s : Style) : List Char :=
  s.endCodes.toList.flatMap (fun code => sequence [code]) ++
    if s.isUnclear then sequence [0] else []

/-- The plain style needs no sequence. -/
theorem opening_plain : plain.opening = [] := rfl

/-- Nothing has to be written at the end of plain text. -/
theorem closing_plain : plain.closing = [] := rfl

/-- A text without the escape character keeps the style. -/
theorem after_eq_self {s : Style} {text : List Char} (h : escapeChar ∉ text) :
    s.after text = s := by
  rw [after, styleParameters_eq_nil h, List.foldl_nil]

/-- Bold is taken back by the code that ends both weights. -/
example : ((plain.read ['1']).read ['2', '2']) = plain := by decide +kernel

/-- A code has no zero in front, and nothing is read behind what is not a code. -/
example : plain.read ['0', '1', ';', '4'] = plain := by decide +kernel

end Style
end Text
end LanguageForms
