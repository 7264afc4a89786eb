/-
# Reading regular expressions

A pattern is read token by token.  What has been read so far is a `Reader`: the
group that is open at the moment, and around it the groups whose `(` has not
been closed yet, innermost first.  An empty group and an empty pattern stand for
the empty word; `x?` is read as `x|ε` and `x+` as `xx*`.

Reading stops at the first token that does not fit (`Reader.feed`), or at the
end of the pattern if something is still missing there (`Reader.finish`).
-/
import LanguageForms.Regex.Basic
import LanguageForms.Regex.Token

namespace LanguageForms
namespace Regex

/-- What is wrong with a pattern. -/
inductive Issue where
  /-- An operator has no operand to work on. -/
  | missingOperand (sign : Char)
  /-- A `)` without a `(`. -/
  | unbalanced
  /-- A `(` that is never closed. -/
  | unclosed
deriving DecidableEq

namespace Issue

/-- The wording of an issue. -/
def message : Issue → String
  | missingOperand sign => "operator `" ++ String.singleton sign ++ "` is missing an operand"
  | unbalanced => "unbalanced `)`"
  | unclosed => "`(` is never closed"

end Issue

/-- A place in a pattern and what is wrong there. -/
structure Fault where
  position : Nat
  issue : Issue
deriving DecidableEq

/-- What has been read of a group. -/
inductive Group where
  /-- Nothing yet. -/
  | fresh
  /-- Complete alternatives, the finished factors of the current one, and its last factor. -/
  | item (alternatives factors : Option Regex) (last : Regex)
  /-- Alternatives and the sign that asks for another one. -/
  | awaiting (alternatives : Regex) (sign : Char)
deriving DecidableEq

namespace Group

/-- The union with what comes before, if anything does. -/
def joinUnion : Option Regex → Regex → Regex
  | none, r => r
  | some l, r => union l r

/-- The concatenation with what comes before, if anything does. -/
def joinConcat : Option Regex → Regex → Regex
  | none, r => r
  | some l, r => concat l r

/-- Reads one more operand. -/
def operand (r : Regex) : Group → Group
  | fresh => item none none r
  | item alternatives factors last => item alternatives (some (joinConcat factors last)) r
  | awaiting alternatives _ => item (some alternatives) none r

/-- The expression of a group, or the sign whose operand is missing. -/
def value : Group → Except Char Regex
  | fresh => .ok epsilon
  | item alternatives factors last => .ok (joinUnion alternatives (joinConcat factors last))
  | awaiting _ sign => .error sign

/-- Applies a sign that follows its operand, or names the sign whose operand is missing. -/
def applySign (sign : Char) (f : Regex → Regex) : Group → Except Char Group
  | fresh => .error sign
  | item alternatives factors last => .ok (item alternatives factors (f last))
  | awaiting _ missing => .error missing

/-- Begins another alternative, or names the sign whose operand is missing. -/
def alternative (sign : Char) : Group → Except Char Group
  | fresh => .error sign
  | item alternatives factors last =>
    .ok (awaiting (joinUnion alternatives (joinConcat factors last)) sign)
  | awaiting _ missing => .error missing

end Group

/-- What has been read of a pattern: the open group, and the groups around it with the
positions of the `(` that separate them, innermost first. -/
structure Reader where
  group : Group
  outer : List (Nat × Group)
deriving DecidableEq

namespace Reader

/-- Nothing has been read. -/
def initial : Reader := ⟨.fresh, []⟩

/-- Replaces the open group, or reports a missing operand. -/
def continueWith (r : Reader) (position : Nat) : Except Char Group → Except Fault Reader
  | .ok g => .ok { r with group := g }
  | .error sign => .error ⟨position, .missingOperand sign⟩

/-- Ends the open group and hands its expression to the group around it. -/
def close (r : Reader) (position : Nat) : Except Fault Reader :=
  match r.group.value with
  | .error sign => .error ⟨position, .missingOperand sign⟩
  | .ok value =>
    match r.outer with
    | [] => .error ⟨position, .unbalanced⟩
    | (_, g) :: rest => .ok ⟨g.operand value, rest⟩

/-- Reads one token. -/
def feed (r : Reader) (position : Nat) : Token → Except Fault Reader
  | .symbol c => .ok { r with group := r.group.operand (symbol c) }
  | .epsilon => .ok { r with group := r.group.operand epsilon }
  | .opening => .ok ⟨.fresh, (position, r.group) :: r.outer⟩
  | .closing => r.close position
  | .either sign => r.continueWith position (r.group.alternative sign)
  | .star => r.continueWith position (r.group.applySign '*' star)
  | .optional => r.continueWith position (r.group.applySign '?' fun x => union x epsilon)
  | .repeated => r.continueWith position (r.group.applySign '+' fun x => concat x (star x))

/-- Reads tokens up to the first that does not fit. -/
def feedAll (r : Reader) : List (Nat × Token) → Except Fault Reader
  | [] => .ok r
  | (position, t) :: rest =>
    match r.feed position t with
    | .ok r => feedAll r rest
    | .error fault => .error fault

/-- The expression at the end of a pattern of a given length. -/
def finish (r : Reader) (length : Nat) : Except Fault Regex :=
  match r.group.value with
  | .error sign => .error ⟨length, .missingOperand sign⟩
  | .ok value =>
    match r.outer with
    | [] => .ok value
    | (position, _) :: _ => .error ⟨position, .unclosed⟩

end Reader

/-- A pattern that cannot be read: where, what stands there, and what is wrong. -/
structure SyntaxError where
  position : Nat
  fragment : List Char
  issue : Issue
deriving DecidableEq

/-- How many characters of the pattern an error shows. -/
def fragmentLength : Nat := 8

namespace SyntaxError

/-- A fault together with the characters of the pattern from there on. -/
def ofFault (pattern : List Char) (fault : Fault) : SyntaxError :=
  ⟨fault.position, (pattern.drop fault.position).take fragmentLength, fault.issue⟩

/-- The wording of an error. -/
def message (e : SyntaxError) : String :=
  "regex syntax error at position " ++ e.position.repr ++ " near `" ++
    String.ofList e.fragment ++ "`: " ++ e.issue.message

end SyntaxError

/-- The expression of a pattern, or the first fault. -/
def read (pattern : List Char) : Except Fault Regex :=
  match Reader.initial.feedAll (Token.scan pattern) with
  | .ok r => r.finish pattern.length
  | .error fault => .error fault

/-- The expression of a pattern, or why it cannot be read. -/
def parse (pattern : String) : Except SyntaxError Regex :=
  (read pattern.toList).mapError (SyntaxError.ofFault pattern.toList)

/-- `a*b+` reads as `a*(bb*)`. -/
example : read ['a', '*', 'b', '+'] =
    .ok (concat (star (symbol 'a')) (concat (symbol 'b') (star (symbol 'b')))) := rfl

/-- A `+` in front of an operand is a union. -/
example : read ['(', '0', ' ', '+', '1', ')', '*'] =
    .ok (star (union (symbol '0') (symbol '1'))) := rfl

/-- The second `|` finds the first one without an operand. -/
example : read ['a', '|', '|', 'b'] = .error ⟨2, .missingOperand '|'⟩ := rfl

/-- Of two open brackets the inner one is reported. -/
example : read ['(', '(', 'a'] = .error ⟨1, .unclosed⟩ := rfl

end Regex
end LanguageForms
