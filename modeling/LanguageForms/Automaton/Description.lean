/-
# Describing automata

An automaton is described by declarations in any order.  States that are never
declared are the start state, the ends of the edges and the accepting states, in
this order; an alphabet that is never declared consists of the symbols on edges.
What is declared binds: anything outside of it is a defect.
-/
import LanguageForms.Automaton.Defect

namespace LanguageForms
namespace Automaton

/-- One declaration about an automaton. -/
inductive Declaration where
  | states (qs : List State)
  | alphabet (cs : List Char)
  | transitions (ts : List (State × Char × State))
  | epsilon (ts : List (State × State))
  | accepting (qs : List State)
deriving DecidableEq

/-- What has been declared so far. -/
structure Description where
  states : Option (DistinctList State)
  alphabet : Option (SortedSet Char)
  edges : List Transition
  accepting : List State
deriving DecidableEq

namespace Description

/-- Nothing has been declared. -/
def empty : Description := ⟨none, none, [], []⟩

/-- Takes one more declaration; declarations of the same sort add up. -/
def declare (d : Description) : Declaration → Description
  | .states qs => { d with states := some ((d.states.getD .empty).insertAll qs) }
  | .alphabet cs => { d with alphabet := some ((d.alphabet.getD .empty).insertAll cs) }
  | .transitions ts => { d with edges := d.edges ++ ts.map fun t => ⟨t.1, .symbol t.2.1, t.2.2⟩ }
  | .epsilon ts => { d with edges := d.edges ++ ts.map fun t => ⟨t.1, .epsilon, t.2⟩ }
  | .accepting qs => { d with accepting := d.accepting ++ qs }

/-- The description that some declarations make, one after the other. -/
def ofList (l : List Declaration) : Description := l.foldl declare empty

/-- The states that the start state, the edges and the accepting states mention. -/
def mentioned (d : Description) (start : State) : DistinctList State :=
  .ofList (start :: d.edges.flatMap (fun t => [t.source, t.target]) ++ d.accepting)

/-- The automaton of a description, whether or not its parts fit together. -/
def assemble (d : Description) (kind : Kind) (start : State) : Automaton where
  kind := kind
  states := d.states.getD (d.mentioned start)
  alphabet := d.alphabet.getD (.ofList (d.edges.filterMap fun t => t.label.symbol?))
  transitions := .ofList d.edges
  start := start
  accepting := .ofList d.accepting

/-- The nondeterministic automaton of a description. -/
def toNondeterministic (d : Description) (start : State) : Except Defect Automaton :=
  let a := d.assemble .nondeterministic start
  match a.defect? with
  | none => .ok a
  | some e => .error e

/-- The deterministic automaton of a description. -/
def toDeterministic (d : Description) (start : State) : Except Defect Automaton :=
  let a := d.assemble .deterministic start
  match a.deterministicDefect? with
  | none => .ok a
  | some e => .error e

end Description
end Automaton
end LanguageForms
