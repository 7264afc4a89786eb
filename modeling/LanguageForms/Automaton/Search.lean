/-
# The search behind the closure

A search has found some states, and those in its queue are still to be treated.  A
round takes the first state out of the queue and looks at the states that its empty
moves lead to; one that is found for the first time goes to the end of the queue.  The
search is over when the queue is empty.

Nothing bounds the number of rounds here: that a search ends is what
`Search.EndsWith` says of it.
-/
import LanguageForms.Automaton.Basic

namespace LanguageForms
namespace Automaton

/-- A transition that reads nothing leads from one state to another. -/
def EmptyMove (a : Automaton) (p q : State) : Prop := ⟨p, .epsilon, q⟩ ∈ a.transitions

/-- The states that have been found, and those of them that are still to be treated. -/
structure Search where
  found : SortedSet State
  queue : List State

namespace Search

/-- Finds a state: for the first time it is put at the end of the queue. -/
def visit (s : Search) (q : State) : Search :=
  if q ∈ s.found then s else ⟨s.found.insert q, s.queue ++ [q]⟩

/-- Finds some states, one after the other. -/
def visitAll (s : Search) (qs : List State) : Search := qs.foldl visit s

/-- A search that begins with some states. -/
def start (qs : List State) : Search := visitAll ⟨.empty, []⟩ qs

/-- A round of the search, if there is a state to be treated. -/
def round? (a : Automaton) (s : Search) : Option Search :=
  match s.queue with
  | [] => none
  | q :: queue => some (visitAll ⟨s.found, queue⟩ (a.successors q .epsilon))

/-- After finitely many rounds the search is over and has found these states. -/
inductive EndsWith (a : Automaton) : Search → SortedSet State → Prop where
  | done {s : Search} : s.round? a = none → EndsWith a s s.found
  | round {s t : Search} {states : SortedSet State} :
      s.round? a = some t → EndsWith a t states → EndsWith a s states

end Search
end Automaton
end LanguageForms
