/-
# Automata with expressions on their edges

A generalized automaton has one start state, one accepting state, and between two
states at most one edge, which carries a regular expression.

Eliminating a state replaces every way through it by an edge: with `R₁` on the
edge into it, `R₂` on the edge out of it and `R₃` on its loop, the edge past it
gets `R₁ R₃* R₂`, united with what it had before.
-/
import LanguageForms.Automaton.Table
import LanguageForms.Regex.Printer
import LanguageForms.Regex.Simplify
import LanguageForms.SortedMap

namespace LanguageForms

/-- An automaton whose edges carry regular expressions. -/
structure Generalized where
  states : DistinctList State
  start : State
  accept : State
  edges : SortedMap (State × State) Regex
deriving DecidableEq

namespace Generalized

/-- The expression on the edge between two states, if there is one. -/
def edge? (g : Generalized) (p q : State) : Option Regex := g.edges.get? (p, q)

/-- What an edge carries when an expression is added to it. -/
def merged (g : Generalized) (p q : State) (r : Regex) : Regex :=
  match g.edge? p q with
  | some old => old.unite r
  | none => r

/-- Adds an expression to an edge. -/
def addEdge (g : Generalized) (p q : State) (r : Regex) : Generalized :=
  { g with edges := g.edges.insert (p, q) (g.merged p q r) }

/-- The edges into a state from other states. -/
def incoming (g : Generalized) (q : State) : List (State × Regex) :=
  (g.edges.entries.filter fun e => decide (e.1.2 = q) && !decide (e.1.1 = q)).map fun e =>
    (e.1.1, e.2)

/-- The edges out of a state to other states. -/
def outgoing (g : Generalized) (q : State) : List (State × Regex) :=
  (g.edges.entries.filter fun e => decide (e.1.1 = q) && !decide (e.1.2 = q)).map fun e =>
    (e.1.2, e.2)

/-- The expression of a way into a state, around its loop and out of it. -/
def through (loop : Option Regex) (into out : Regex) : Regex :=
  match loop with
  | some r => (into.append r.iterate).append out
  | none => into.append out

/-- The ways past a state: where they begin and end, and their expressions. -/
def detours (g : Generalized) (q : State) : List (State × State × Regex) :=
  (g.incoming q).flatMap fun i => (g.outgoing q).map fun o =>
    (i.1, o.1, through (g.edge? q q) i.2 o.2)

/-- The automaton without a state and its edges. -/
def remove (g : Generalized) (q : State) : Generalized :=
  { g with
    states := g.states.erase q
    edges := g.edges.filter fun e => !decide (e.1 = q) && !decide (e.2 = q) }

/-- Adds expressions to edges, and tells what each of these edges carries then. -/
def addEdges (g : Generalized) :
    List (State × State × Regex) → Generalized × List (State × State × Regex)
  | [] => (g, [])
  | (p, q, r) :: rest =>
    let result := addEdges (g.addEdge p q r) rest
    (result.1, (p, q, g.merged p q r) :: result.2)

/-- Eliminates a state, and tells which edges were written. -/
def eliminate (g : Generalized) (q : State) : Generalized × List (State × State × Regex) :=
  (g.remove q).addEdges (g.detours q)

/-- Whether two automata have the same parts; the order of their states does not matter. -/
def sameAs (g h : Generalized) : Bool :=
  g.states.sameMembers h.states && decide ({ g with states := h.states } = h)

/-- The text of an edge. -/
def edgeText (e : (State × State) × Regex) : String :=
  e.1.1.name ++ " --" ++ e.2.text ++ "--> " ++ e.1.2.name

/-- A line with the states, the start and the accepting state, and a line for an edge. -/
def text (g : Generalized) : String :=
  "generalized NFA with states " ++ Text.separated ", " (g.states.toList.map State.name) ++
    ", start " ++ g.start.name ++ ", accepting " ++ g.accept.name ++ "\n" ++
    Text.separated "\n" (g.edges.entries.map edgeText)

end Generalized

end LanguageForms
