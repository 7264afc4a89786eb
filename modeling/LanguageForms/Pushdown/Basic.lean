/-
# Pushdown automata

A move reads a symbol or nothing, takes a symbol or nothing from the top of the
stack, and puts a sequence of symbols on it whose first symbol ends up on top.
Moves are kept in the order in which they were added, and may name states and
symbols that were never declared.
-/
import LanguageForms.Automaton.Table

namespace LanguageForms

/-- A move of a pushdown automaton. -/
structure Pushdown.Move where
  source : State
  label : Label
  /-- The symbol that is taken from the stack, if one is. -/
  pop : Option Char
  /-- The symbols that are put on the stack, the top first. -/
  push : List Char
  target : State
deriving DecidableEq

/-- The text of a move. -/
def Pushdown.Move.text (m : Pushdown.Move) : String :=
  m.source.name ++ " --" ++ m.label.text ++ ", " ++ Text.symbolOrEmpty m.pop ++ "→" ++
    Text.symbolsOrEmpty m.push ++ "--> " ++ m.target.name

/-- A pushdown automaton that accepts by its state at the end of the word. -/
structure Pushdown where
  states : DistinctList State
  inputAlphabet : SortedSet Char
  stackAlphabet : SortedSet Char
  moves : List Pushdown.Move
  start : State
  accepting : SortedSet State
deriving DecidableEq

namespace Pushdown

/-- A pushdown automaton without moves; its start state and its accepting states are declared
with the others. -/
def ofParts (states : List State) (inputAlphabet stackAlphabet : List Char) (start : State)
    (accepting : List State) : Pushdown where
  states := ((DistinctList.ofList states).insert start).insertAll (SortedSet.ofList accepting).toList
  inputAlphabet := .ofList inputAlphabet
  stackAlphabet := .ofList stackAlphabet
  moves := []
  start := start
  accepting := .ofList accepting

/-- Adds a move behind the others. -/
def add (p : Pushdown) (m : Move) : Pushdown := { p with moves := p.moves ++ [m] }

/-- Adds moves one after the other. -/
def addAll (p : Pushdown) (ms : List Move) : Pushdown := { p with moves := p.moves ++ ms }

/-- Whether two automata have the same parts; the order of their states does not matter. -/
def sameAs (p q : Pushdown) : Bool :=
  p.states.sameMembers q.states && decide ({ p with states := q.states } = q)

/-- A line with the states, the start state and the accepting states, and a line for a move. -/
def text (p : Pushdown) : String :=
  "PDA with states " ++ Text.separated ", " (p.states.toList.map State.name) ++ ", start " ++
    p.start.name ++ ", accepting " ++ statesText p.accepting.toList ++ "\n" ++
    Text.separated "\n" (p.moves.map Move.text)

end Pushdown

end LanguageForms
