/-
# An expression for an automaton

A new start state and a new accepting state are put around the automaton, and its
labels become expressions.  Then its own states are eliminated in the order of
their declaration.  What the edge from the new start to the new accepting state
carries in the end describes the language; if there is no such edge, the language
is empty.
-/
import LanguageForms.Automaton.Defect
import LanguageForms.Generalized.Basic
import LanguageForms.Trace

namespace LanguageForms

/-- The expression of a label. -/
def Label.toRegex : Label → Regex
  | .symbol c => .symbol c
  | .epsilon => .epsilon

namespace Generalized

/-- The edges between a new start, an automaton and a new accepting state. -/
def initialEdges (a : Automaton) (start accept : State) : List (State × State × Regex) :=
  (start, a.start, .epsilon) ::
    a.transitions.toList.map (fun t => (t.source, t.target, t.label.toRegex)) ++
      a.accepting.toList.map fun q => (q, accept, .epsilon)

/-- The automaton between a new start and a new accepting state. -/
def ofAutomaton (a : Automaton) : Generalized :=
  let start := Automaton.freshState a.states.toList "start"
  let accept := Automaton.freshState a.states.toList "accept"
  ((⟨.ofList (start :: a.states.toList ++ [accept]), start, accept, .empty⟩ :
    Generalized).addEdges (initialEdges a start accept)).1

/-- What is told about the new start and the new accepting state. -/
def initialStory (a : Automaton) (g : Generalized) : String :=
  "Add the new start state " ++ g.start.name ++ " with an ε-edge to the old start state " ++
    a.start.name ++ ", and the new accepting state " ++ g.accept.name ++
    " with ε-edges from the old accepting states. Parallel transitions are merged into a " ++
    "single edge labeled with their union."

/-- What is told about one rewritten edge. -/
def rewrittenText (e : State × State × Regex) : String :=
  e.1.name ++ " → " ++ e.2.1.name ++ " becomes " ++ e.2.2.text

/-- What is told about the elimination of a state. -/
def eliminationStory (g : Generalized) (q : State) (rewritten : List (State × State × Regex)) :
    String :=
  if rewritten.isEmpty then
    "Eliminate " ++ q.name ++ ". It does not lie on a path from " ++ g.start.name ++ " to " ++
      g.accept.name ++ ", so its edges are simply dropped."
  else
    "Eliminate " ++ q.name ++ ", combining its incoming and outgoing edges by concatenation " ++
      "(with the starred self loop in between) and union: " ++
      Text.separated "; " (rewritten.map rewrittenText) ++ "."

/-- Eliminates states one after the other, with the steps that show what is left. -/
def eliminateAll (g : Generalized) : List State → Generalized × List Trace.Entry
  | [] => (g, [])
  | q :: qs =>
    let next := g.eliminate q
    let rest := eliminateAll next.1 qs
    (rest.1, .showing ("Eliminate " ++ q.name) (g.eliminationStory q next.2)
      (.generalized next.1) :: rest.2)

/-- The expression between start and accepting state, if there is one. -/
def answer (g : Generalized) : Option Regex := g.edge? g.start g.accept

/-- The last step: the expression, or that there is none. -/
def finalEntry (g : Generalized) : Trace.Entry :=
  match g.answer with
  | some r =>
    .showing "Final regular expression obtained"
      ("Only " ++ g.start.name ++ " and " ++ g.accept.name ++
        " remain, connected by the regular expression " ++ r.text ++
        ". It describes exactly the language accepted by the automaton.")
      (.regex r)
  | none =>
    .showing "Language is empty"
      ("Only " ++ g.start.name ++ " and " ++ g.accept.name ++
        " remain and they are not connected, so the automaton accepts no word.")
      (.generalized g)

end Generalized

namespace Automaton

/-- The expression of an automaton whose parts fit together, none for the empty language, and
the steps that lead to it. -/
def elimination (a : Automaton) : Option Regex × Trace :=
  let g := Generalized.ofAutomaton a
  let result := g.eliminateAll a.states.toList
  let opening := "We use the state elimination method to convert the automaton into a regular " ++
    "expression. Transition labels become regular expressions that grow as states are removed."
  (result.1.answer, ⟨opening,
    .showing "Add new start and accepting states" (Generalized.initialStory a g)
      (.generalized g) :: result.2 ++ [result.1.finalEntry]⟩)

/-- The expression of an automaton and how it is found, or what does not fit. -/
def toRegex (a : Automaton) : Except Defect (Option Regex × Trace) :=
  match a.defect? with
  | some d => .error d
  | none => .ok a.elimination

end Automaton

end LanguageForms
