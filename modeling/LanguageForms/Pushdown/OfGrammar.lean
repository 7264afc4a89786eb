/-
# A pushdown automaton for a grammar

The automaton has three states.  From `q0` it puts the start symbol on top of the
end marker and goes to `q1`; there it replaces a head on top of the stack by a
body, or reads a terminal that lies on top; and once only the end marker is left
it goes to the accepting state `q2`.
-/
import LanguageForms.Grammar.Text
import LanguageForms.Trace

namespace LanguageForms
namespace Grammar

/-- The state before anything is on the stack. -/
def initialState : State := ⟨"q0"⟩

/-- The state in which words are derived. -/
def mainState : State := ⟨"q1"⟩

/-- The state at the end of a derivation. -/
def finalState : State := ⟨"q2"⟩

/-- Puts the start symbol on top of the end marker. -/
def setup (g : Grammar) : Pushdown.Move :=
  ⟨initialState, .epsilon, none, [g.start, endMarker], mainState⟩

/-- Replaces a head by a body. -/
def expand (p : Production) : Pushdown.Move :=
  ⟨mainState, .epsilon, some p.head, p.body, mainState⟩

/-- Reads a terminal. -/
def readTerminal (c : Char) : Pushdown.Move := ⟨mainState, .symbol c, some c, [], mainState⟩

/-- Takes the end marker. -/
def accept : Pushdown.Move := ⟨mainState, .epsilon, some endMarker, [], finalState⟩

/-- The automaton before it has moves. -/
def bare (g : Grammar) : Pushdown :=
  .ofParts [initialState, mainState, finalState] g.terminals.toList
    (g.nonterminals.toList ++ g.terminals.toList ++ [endMarker]) initialState [finalState]

/-- The automaton after the first move. -/
def withSetup (g : Grammar) : Pushdown := g.bare.add g.setup

/-- The automaton after the moves for some productions. -/
def withExpansions (g : Grammar) (ps : List Production) : Pushdown :=
  g.withSetup.addAll (ps.map expand)

/-- The automaton after the moves for all productions and terminals. -/
def withTerminals (g : Grammar) : Pushdown :=
  (g.withExpansions g.productions).addAll (g.terminals.toList.map readTerminal)

/-- The automaton with all its moves. -/
def automaton (g : Grammar) : Pushdown := g.withTerminals.add accept

/-- The step that shows the first move. -/
def setupEntry (g : Grammar) : Trace.Entry :=
  .showing "Create states and push the start symbol"
    ("Create the start state " ++ initialState.name ++ ", the main state " ++ mainState.name ++
      " and the accepting state " ++ finalState.name ++ ". The transition " ++ g.setup.text ++
      " places the start symbol " ++ Text.symbol g.start ++ " on top of the end marker " ++
      Text.symbol endMarker ++ ".")
    (.pushdown g.withSetup)

/-- The step that shows the move for a production, added to some automaton. -/
def productionEntry (before : Pushdown) (p : Production) : Trace.Entry :=
  .showing ("Add production " ++ p.text)
    ("When " ++ Text.symbol p.head ++ " is on top of the stack it may be replaced by " ++
      p.bodyText ++ " without reading input, which is the transition " ++ (expand p).text ++ ".")
    (.pushdown (before.add (expand p)))

/-- The steps that show the moves for some productions, one after the other. -/
def productionEntries (before : Pushdown) : List Production → List Trace.Entry
  | [] => []
  | p :: ps => productionEntry before p :: productionEntries (before.add (expand p)) ps

/-- The step that shows the moves for the terminals. -/
def terminalsEntry (g : Grammar) : Trace.Entry :=
  .showing "Match terminals"
    ("For every terminal in " ++ symbolsText g.terminals.toList ++
      " add a transition that reads it from the input while popping it from the stack: " ++
      Text.separated ", " (g.terminals.toList.map fun c => (readTerminal c).text) ++ ".")
    (.pushdown g.withTerminals)

/-- The step that shows the last move. -/
def acceptEntry (g : Grammar) : Trace.Entry :=
  .showing "Link the accepting state"
    ("Once only the end marker is left the whole input has been derived, so " ++ accept.text ++
      " leads to the accepting state.")
    (.pushdown g.automaton)

/-- The steps that lead to the automaton of a grammar. -/
def automatonTrace (g : Grammar) : Trace :=
  ⟨"We construct a pushdown automaton that simulates leftmost derivations of the grammar on " ++
      "its stack.",
    g.setupEntry :: productionEntries g.withSetup g.productions ++
      [g.terminalsEntry, g.acceptEntry]⟩

/-- The pushdown automaton of a grammar and the steps that lead to it, or what is wrong with
the grammar. -/
def toPushdown (g : Grammar) : Except Defect (Pushdown × Trace) :=
  match g.defect? with
  | some d => .error d
  | none => .ok (g.automaton, g.automatonTrace)

end Grammar
end LanguageForms
