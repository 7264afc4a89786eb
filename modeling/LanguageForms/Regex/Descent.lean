/-
# Reading a pattern layer by layer

The grammar of patterns can be followed from its weakest layer down.  A routine for each
layer reads a phrase of that layer from a place on, and has another routine read the
phrases of the layer below, or the group that a `(` opens.  A place in the pattern is
what is left of it (`Descent.Rest`).

`Descent.move` is what a routine does at a place: it returns an expression and where it
stops, or reports a fault, or goes on, or calls another routine.  `Descent.Gives` is what
comes of it when the calls are carried out, and `Descent.Enters` lists all that is
entered on the way, with the place where it is entered.

The `|` or `+` behind an alternative is taken by the routine that reads the alternatives
of a group, and there it is an error if no operand follows.  A `+` behind an operand is
"one or more" if no operand follows, and is left to that routine otherwise.
-/
import LanguageForms.Regex.Parser
import LanguageForms.Regex.Phrase

namespace LanguageForms
namespace Regex
namespace Descent

/-- What is left to read: the characters that are no blanks, with their positions. -/
abbrev Rest := List (Nat × Char)

/-- Whether an operand can begin at a place. -/
def atOperand : Rest → Bool
  | [] => false
  | (_, c) :: _ => startsOperand c

/-- The position of a place in a pattern of a given length. -/
def position (length : Nat) : Rest → Nat
  | [] => length
  | (n, _) :: _ => n

/-- What reads a part of a pattern. -/
inductive Routine where
  /-- Reads a phrase of a layer; that of the weakest layer may be empty. -/
  | phrase (layer : Layer)
  /-- Goes on behind alternatives. -/
  | alternatives (left : Regex)
  /-- Goes on behind factors. -/
  | factors (left : Regex)
  /-- Goes on behind an operand, with the signs that follow it. -/
  | signs (operand : Regex)
  /-- Ends a group, given the position of its `(`. -/
  | closing (opening : Nat) (inner : Regex)

/-- What a routine can do. -/
inductive Move where
  /-- Returns an expression, and where it stops. -/
  | returns (e : Regex) (rest : Rest)
  /-- Reports a fault. -/
  | fails (fault : Fault)
  /-- Goes on as a routine at a place. -/
  | goesOn (as : Routine) (rest : Rest)
  /-- Calls a routine at a place, and goes on behind what it returns. -/
  | calls (callee : Routine) (rest : Rest) (next : Regex → Routine)

/-- Reads the alternatives of a group or of a whole pattern, which may be empty. -/
def choice : Rest → Move
  | [] => .returns epsilon []
  | (n, c) :: us =>
    if c = ')' then .returns epsilon ((n, c) :: us)
    else if startsOperand c then .calls (.phrase .sequence) ((n, c) :: us) .alternatives
    else .fails ⟨n, .missingOperand c⟩

/-- Reads another alternative behind a sign that asks for one, as long as there is such a sign. -/
def alternatives (length : Nat) (left : Regex) : Rest → Move
  | [] => .returns left []
  | (n, c) :: us =>
    if c = '|' ∨ c = '+' then
      if atOperand us then
        .calls (.phrase .sequence) us fun right => .alternatives (union left right)
      else .fails ⟨position length us, .missingOperand c⟩
    else .returns left ((n, c) :: us)

/-- Reads the factors of an alternative. -/
def sequence (us : Rest) : Move := .calls (.phrase .repetition) us .factors

/-- Reads another factor, as long as an operand begins. -/
def factors (left : Regex) (us : Rest) : Move :=
  if atOperand us then .calls (.phrase .repetition) us fun right => .factors (concat left right)
  else .returns left us

/-- Reads an operand and the signs that follow it. -/
def repetition (us : Rest) : Move := .calls (.phrase .operand) us .signs

/-- Applies a sign to the operand before it, as long as there is one. -/
def signs (operand : Regex) : Rest → Move
  | [] => .returns operand []
  | (n, c) :: us =>
    if c = '*' then .goesOn (.signs (star operand)) us
    else if c = '?' then .goesOn (.signs (union operand epsilon)) us
    else if c = '+' ∧ atOperand us = false then
      .goesOn (.signs (concat operand (star operand))) us
    else .returns operand ((n, c) :: us)

/-- Reads a symbol, the sign of the empty word, or a group. -/
def operand (length : Nat) : Rest → Move
  | [] => .fails ⟨length, .unclosed⟩
  | (n, c) :: us =>
    if c = '(' then .calls (.phrase .choice) us (.closing n)
    else if c = 'ε' then .returns epsilon us
    else if isOperator c then .fails ⟨n, .missingOperand c⟩
    else .returns (symbol c) us

/-- Ends a group. -/
def closing (opening : Nat) (inner : Regex) : Rest → Move
  | [] => .fails ⟨opening, .unclosed⟩
  | (_, c) :: us => if c = ')' then .returns inner us else .fails ⟨opening, .unclosed⟩

/-- What a routine does at a place in a pattern of a given length. -/
def move (length : Nat) : Routine → Rest → Move
  | .phrase .choice, us => choice us
  | .alternatives left, us => alternatives length left us
  | .phrase .sequence, us => sequence us
  | .factors left, us => factors left us
  | .phrase .repetition, us => repetition us
  | .signs e, us => signs e us
  | .phrase .operand, us => operand length us
  | .closing opening inner, us => closing opening inner us

/-- What comes of a routine: an expression and where it stops, or a fault. -/
abbrev Outcome := Except Fault (Regex × Rest)

/-- What a routine gives at a place, when all its calls are carried out. -/
inductive Gives (length : Nat) : Routine → Rest → Outcome → Prop where
  | returns {r : Routine} {us vs : Rest} {e : Regex} :
      move length r us = .returns e vs → Gives length r us (.ok (e, vs))
  | fails {r : Routine} {us : Rest} {f : Fault} :
      move length r us = .fails f → Gives length r us (.error f)
  | goesOn {r s : Routine} {us vs : Rest} {o : Outcome} :
      move length r us = .goesOn s vs → Gives length s vs o → Gives length r us o
  | calls {r s : Routine} {us vs ws : Rest} {next : Regex → Routine} {e : Regex} {o : Outcome} :
      move length r us = .calls s vs next → Gives length s vs (.ok (e, ws)) →
      Gives length (next e) ws o → Gives length r us o
  | callFails {r s : Routine} {us vs : Rest} {next : Regex → Routine} {f : Fault} :
      move length r us = .calls s vs next → Gives length s vs (.error f) →
      Gives length r us (.error f)

/-- A routine at a place is entered, at once or later, when a routine is entered at a place. -/
inductive Enters (length : Nat) : Routine → Rest → Routine → Rest → Prop where
  | here (r : Routine) (us : Rest) : Enters length r us r us
  | goesOn {r s t : Routine} {us vs ws : Rest} :
      move length r us = .goesOn s vs → Enters length s vs t ws → Enters length r us t ws
  | callee {r s t : Routine} {us vs ws : Rest} {next : Regex → Routine} :
      move length r us = .calls s vs next → Enters length s vs t ws → Enters length r us t ws
  | behind {r s t : Routine} {us vs ws xs : Rest} {next : Regex → Routine} {e : Regex} :
      move length r us = .calls s vs next → Gives length s vs (.ok (e, xs)) →
      Enters length (next e) xs t ws → Enters length r us t ws

/-- What is read of a whole pattern, given what comes of its alternatives. -/
def conclude : Outcome → Except Fault Regex
  | .error f => .error f
  | .ok (e, []) => .ok e
  | .ok (_, (n, _) :: _) => .error ⟨n, .unbalanced⟩

/-- What comes of reading the alternatives of a pattern. -/
def Begun (pattern : List Char) (o : Outcome) : Prop :=
  Gives pattern.length (.phrase .choice) (Token.visible 0 pattern) o

/-- A routine is entered at a place while a pattern is read. -/
def Visits (pattern : List Char) (r : Routine) (us : Rest) : Prop :=
  Enters pattern.length (.phrase .choice) (Token.visible 0 pattern) r us

/-- The place is the end of the pattern, or a `)` stands there. -/
def atEnd : Rest → Bool
  | [] => true
  | (_, c) :: _ => c == ')'

end Descent
end Regex
end LanguageForms
