/-
# Running an automaton

The automaton is run on all states at once that it can be in: the closure of the
start state under transitions that read nothing, and after every symbol the
closure of the states that the symbol leads to.  A word is accepted if there is
an accepting state among the states at its end.
-/
import LanguageForms.Automaton.Basic

namespace LanguageForms
namespace Automaton

/-- The edges that leave a state. -/
def edgesFrom (q : State) (edges : List (State × State)) : List (State × State) :=
  edges.filter fun e => decide (e.1 = q)

/-- The edges that leave other states. -/
def edgesElsewhere (q : State) (edges : List (State × State)) : List (State × State) :=
  edges.filter fun e => !decide (e.1 = q)

/-- The targets of the edges that leave a state, less those that have been found. -/
def newTargets (q : State) (edges : List (State × State)) (found : SortedSet State) :
    List State :=
  ((edgesFrom q edges).map Prod.snd).filter fun p => !decide (p ∈ found)

/-- No edge is counted twice: those that find a state leave the treated one, the rest do not. -/
theorem length_newTargets_add_length_edgesElsewhere (q : State) (edges : List (State × State))
    (found : SortedSet State) :
    (newTargets q edges found).length + (edgesElsewhere q edges).length ≤ edges.length := by
  have hnew := List.length_filter_le (fun p => !decide (p ∈ found))
    ((edgesFrom q edges).map Prod.snd)
  rw [List.length_map] at hnew
  have hsum : edges.length = (edgesFrom q edges).length + (edgesElsewhere q edges).length := by
    rw [List.length_eq_countP_add_countP (fun e => decide (e.1 = q)),
      List.countP_eq_length_filter, List.countP_eq_length_filter]
    simp [edgesFrom, edgesElsewhere]
  unfold newTargets
  omega

/-- Follows edges from the states in a queue.  An edge is taken out when its source has been
treated, so the queue and the edges together get shorter with every state. -/
def follow (edges : List (State × State)) (found : SortedSet State) :
    List State → SortedSet State
  | [] => found
  | q :: queue =>
    follow (edgesElsewhere q edges) (found.insertAll (newTargets q edges found))
      (newTargets q edges found ++ queue)
termination_by queue => queue.length + edges.length
decreasing_by
  have := length_newTargets_add_length_edgesElsewhere q edges found
  rw [List.length_append, List.length_cons]
  omega

/-- The pairs of states that are linked by a transition that reads nothing. -/
def epsilonEdges (a : Automaton) : List (State × State) :=
  (a.transitions.toList.filter fun t => decide (t.label = .epsilon)).map fun t =>
    (t.source, t.target)

/-- The states that can be reached from some states without reading anything. -/
def closure (a : Automaton) (qs : List State) : SortedSet State :=
  let found := SortedSet.ofList qs
  follow a.epsilonEdges found found.toList

/-- The states that a symbol leads to from some states. -/
def move (a : Automaton) (qs : List State) (c : Char) : SortedSet State :=
  .ofList ((a.transitions.toList.filter fun t =>
    decide (t.label = .symbol c) && decide (t.source ∈ qs)).map Transition.target)

/-- A symbol leads from some states to the targets of their transitions with it. -/
theorem mem_move {a : Automaton} {qs : List State} {c : Char} {q : State} :
    q ∈ a.move qs c ↔ ∃ p ∈ qs, ⟨p, .symbol c, q⟩ ∈ a.transitions := by
  simp only [move, SortedSet.mem_ofList, List.mem_map, List.mem_filter, Bool.and_eq_true,
    decide_eq_true_eq]
  constructor
  · rintro ⟨⟨p, l, t⟩, ⟨h, rfl, hp⟩, rfl⟩
    exact ⟨p, hp, h⟩
  · rintro ⟨p, hp, h⟩
    exact ⟨_, ⟨h, rfl, hp⟩, rfl⟩

/-- The states that the automaton can be in before it has read anything. -/
def initial (a : Automaton) : SortedSet State := a.closure [a.start]

/-- The states that the automaton can be in after one more symbol. -/
def advance (a : Automaton) (qs : SortedSet State) (c : Char) : SortedSet State :=
  a.closure (a.move qs.toList c).toList

/-- The states that the automaton can be in after a word. -/
def after (a : Automaton) (word : List Char) : SortedSet State :=
  word.foldl a.advance a.initial

/-- Whether the automaton accepts a word. -/
def accepts (a : Automaton) (word : List Char) : Bool := (a.after word).any a.isAccepting

end Automaton
end LanguageForms
