/-
# The table of an automaton

One row for a state and one column for a symbol, plus one for `ε` if some
transition reads nothing.  The start state is marked `→` and an accepting state
`*`; a cell holds the set of successors, or `-`.
-/
import LanguageForms.Automaton.Basic
import LanguageForms.Text.Frame

namespace LanguageForms

/-- A set of states in braces. -/
def statesText (qs : List State) : String := Text.braced (qs.map State.name)

/-- A set of symbols in braces. -/
def symbolsText (cs : List Char) : String := Text.braced (cs.map Text.symbol)

namespace Automaton

/-- The labels that have a column. -/
def columns (a : Automaton) : List Label :=
  a.alphabet.toList.map .symbol ++ if a.hasEpsilon then [.epsilon] else []

/-- The marks in front of a state. -/
def marker (a : Automaton) (q : State) : String :=
  (if q = a.start then "→" else "") ++ if a.isAccepting q then "*" else ""

/-- The cell of a state and a label. -/
def cell (a : Automaton) (q : State) (l : Label) : String :=
  match a.successors q l with
  | [] => "-"
  | qs => statesText qs

/-- The rows of the table, the header first. -/
def rows (a : Automaton) : List (List String) :=
  ("State" :: a.columns.map Label.text) ::
    a.states.toList.map fun q => (a.marker q ++ q.name) :: a.columns.map (a.cell q)

/-- The table of the transitions. -/
def table (a : Automaton) : String := Text.Frame.render a.rows

/-- A line with the kind, the number of states and the alphabet, and the table below it. -/
def text (a : Automaton) : String :=
  a.kind.text ++ " with " ++ a.size.repr ++ " states over " ++ symbolsText a.alphabet.toList ++
    "\n" ++ a.table

end Automaton
end LanguageForms
