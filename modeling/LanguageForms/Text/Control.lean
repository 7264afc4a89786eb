/-
# Control sequences

A terminal does not show everything that is written to it.  The escape character
begins a sequence that sets a style, moves the cursor or names a link, and a text is read
character by character to know what belongs to such a sequence.  An escape character
always begins a new one, a cancel character breaks one off, and any other control
character acts at once while the sequence goes on behind it.  Characters that have no
place in a sequence are passed over.

A piece of text lasts until a sequence is complete.  What stands behind the shown
characters of a piece and never becomes a complete sequence is part of the piece; in
front of the first shown character it is nothing.  `shownPieces` are these pieces, and
`styleParameters` are the parameters of the sequences that set a style.
-/
import LanguageForms.Text.Split

namespace LanguageForms
namespace Text

/-- The character that begins a control sequence. -/
def escapeChar : Char := '\x1b'

/-- Whether a code point lies between two others. -/
def isBetween (low high : Nat) (c : Char) : Bool := low ≤ c.toNat && c.toNat ≤ high

/-- Whether a character breaks a sequence off. -/
def isCancel (c : Char) : Bool := c == '\x18' || c == '\x1a'

/-- Whether a character is one of the control characters in front of the blank. -/
def isControl (c : Char) : Bool := c.toNat < 0x20

/-- Whether a character can stand in front of the last character of a sequence. -/
def isIntermediate (c : Char) : Bool := isBetween 0x20 0x2F c

/-- Whether a character can end a sequence with parameters. -/
def isFinal (c : Char) : Bool := isBetween 0x40 0x7E c

/-- Whether the UTF-8 form of a character has the byte `9C`, which ends a string. -/
def isStringEnd (c : Char) : Bool :=
  let n := c.toNat
  n ≥ 0x80 && n % 64 == 28 || n ≥ 0x800 && n / 64 % 64 == 28 || n ≥ 0x10000 && n / 4096 % 64 == 28

/-- How far the parameters of a sequence have been read. -/
inductive Header where
  /-- There are none yet. -/
  | blank
  /-- There are some, or a sign in front of them. -/
  | parameters
  /-- There are intermediate characters behind them. -/
  | intermediates
  /-- A character is out of order, and the sequence means nothing. -/
  | disordered
deriving DecidableEq

namespace Header

/-- How far they have been read with one more character. -/
def next (h : Header) (c : Char) : Header :=
  match h with
  | blank =>
    if isIntermediate c then intermediates
    else if isBetween 0x30 0x3F c then parameters
    else blank
  | parameters =>
    if isIntermediate c then intermediates
    else if isBetween 0x3C 0x3F c then disordered
    else parameters
  | intermediates => if isBetween 0x30 0x3F c then disordered else intermediates
  | disordered => disordered

end Header

/-- Where the reader of a text stands. -/
inductive Place where
  /-- Outside of all sequences. -/
  | outside
  /-- Behind an escape character. -/
  | escape
  /-- Behind an escape character and an intermediate character. -/
  | intermediate
  /-- In a sequence with parameters, and what was read of it, the last character first. -/
  | control (header : Header) (read : List Char)
  /-- In the parameters in front of a string. -/
  | device (header : Header)
  /-- In a string. -/
  | string
  /-- In a string that a bell can end. -/
  | command
deriving DecidableEq

/-- What a terminal does with a character. -/
inductive Effect where
  /-- It waits for the rest of a sequence. -/
  | hidden
  /-- It shows the character. -/
  | shown
  /-- It obeys the sequence that is complete now. -/
  | complete
  /-- It takes a style from the parameters of the sequence that is complete now. -/
  | style (parameters : List Char)
deriving DecidableEq

namespace Place

/-- Where a character behind an escape character leads. -/
def ofIntroducer (c : Char) : Place :=
  match c with
  | '[' => control .blank []
  | ']' => command
  | 'P' => device .blank
  | 'X' | '^' | '_' => string
  | _ =>
    if isIntermediate c then intermediate
    else if isBetween 0x30 0x7E c then outside
    else escape

/-- What a terminal does with a character that leads to a place: outside again, the sequence is
complete. -/
def effect (p : Place) : Effect := if p = outside then .complete else .hidden

/-- What a terminal does with the last character of a sequence with parameters. -/
def finalEffect (h : Header) (read : List Char) (c : Char) : Effect :=
  if h = .disordered then .hidden else if c = 'm' then .style read.reverse else .complete

/-- One step of reading. -/
def step (p : Place) (c : Char) : Place × Effect :=
  if c = escapeChar then (escape, if p = command then .complete else .hidden)
  else if isCancel c then (outside, .shown)
  else match p with
    | outside => (outside, .shown)
    | escape =>
      if isControl c then (escape, .shown) else (ofIntroducer c, (ofIntroducer c).effect)
    | intermediate =>
      if isControl c then (intermediate, .shown)
      else if isBetween 0x30 0x7E c then (outside, .complete)
      else (intermediate, .hidden)
    | control h read =>
      if isControl c then (control h (c :: read), .shown)
      else if isFinal c then (outside, finalEffect h read c)
      else (control (h.next c) (c :: read), .hidden)
    | device h =>
      (if isFinal c ∨ h.next c = .disordered then string else device (h.next c), .hidden)
    | string => (if isStringEnd c then outside else string, .hidden)
    | command => if c = '\x07' then (outside, .complete) else (command, .hidden)

/-- Only the escape character begins a sequence. -/
theorem step_outside {c : Char} (h : c ≠ escapeChar) : step outside c = (outside, .shown) := by
  rw [step, if_neg h, ite_self]

end Place

/-- The pieces of a text that is read from a given place on, where the first piece may have begun
before, and whether more is shown or the text ends before a sequence is complete. -/
def piecesFrom (p : Place) (hasBegun : Bool) : List Char → List (List Char) × Bool
  | [] => ([[]], true)
  | c :: cs =>
    match p.step c with
    | (q, .shown) => (consPiece c (piecesFrom q true cs).1, true)
    | (q, .hidden) =>
      let (pieces, lasts) := piecesFrom q hasBegun cs
      (if hasBegun && lasts then consPiece c pieces else pieces, lasts)
    | (q, _) => ([] :: (piecesFrom q false cs).1, false)

/-- The pieces of a text that are shown. -/
def shownPieces (cs : List Char) : List (List Char) := (piecesFrom .outside false cs).1

/-- The parameters of the sequences of a text that set a style, in order. -/
def styleParameters (p : Place) : List Char → List (List Char)
  | [] => []
  | c :: cs =>
    match p.step c with
    | (q, .style parameters) => parameters :: styleParameters q cs
    | (q, _) => styleParameters q cs

/-- Without an escape character a text is one piece that is shown. -/
theorem piecesFrom_outside {cs : List Char} (h : escapeChar ∉ cs) (hasBegun : Bool) :
    piecesFrom .outside hasBegun cs = ([cs], true) := by
  induction cs generalizing hasBegun with
  | nil => rfl
  | cons c cs ih =>
    rw [List.mem_cons, not_or] at h
    rw [piecesFrom, Place.step_outside fun e => h.1 e.symm]
    exact congrArg (fun pieces => (consPiece c pieces.1, true)) (ih h.2 true)

/-- A text without the escape character is shown in one piece. -/
theorem shownPieces_eq_singleton {cs : List Char} (h : escapeChar ∉ cs) : shownPieces cs = [cs] :=
  congrArg Prod.fst (piecesFrom_outside h false)

/-- It sets no style. -/
theorem styleParameters_eq_nil {cs : List Char} (h : escapeChar ∉ cs) :
    styleParameters .outside cs = [] := by
  induction cs with
  | nil => rfl
  | cons c cs ih =>
    rw [List.mem_cons, not_or] at h
    rw [styleParameters, Place.step_outside fun e => h.1 e.symm]
    exact ih h.2

/-- A colour is left out. -/
example : shownPieces ['a', escapeChar, '[', '1', 'm', 'b'] = [['a'], ['b']] := rfl

/-- A return in the middle of a sequence is shown. -/
example : shownPieces [escapeChar, '[', '3', '\r', 'm'] = [['\r'], []] := rfl

/-- An escape character at the end is shown behind text only. -/
example : shownPieces ['a', escapeChar] = [['a', escapeChar]] ∧ shownPieces [escapeChar] = [[]] :=
  ⟨rfl, rfl⟩

end Text
end LanguageForms
