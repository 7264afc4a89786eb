/-
# Determinising an automaton

The states of the deterministic automaton stand for the sets of states that the
given one can be in.  They are discovered breadth first along the alphabet, from
the closure of the start state on; the empty set is not among them, so a missing
successor is a missing transition.

The discovery is a list of events (`Automaton.Subset.events`): a set is created, or
a transition is added.  The deterministic automaton is what all events make of an
automaton without states, and the trace shows what each beginning of the list
makes.
-/
import LanguageForms.Automaton.Closure
import LanguageForms.Automaton.Defect
import LanguageForms.Trace

namespace LanguageForms
namespace Automaton

/-- A set of states and the state that stands for it. -/
structure Subset where
  members : SortedSet State
  state : State
deriving DecidableEq

namespace Subset

/-- How a set was found. -/
inductive Origin where
  /-- It is the closure of the start state. -/
  | initial
  /-- It is the closure of where a symbol leads to from a set found before. -/
  | moved (source : State) (symbol : Char) (direct : SortedSet State)
deriving DecidableEq

/-- An event of the discovery. -/
inductive Event where
  /-- A set is found for the first time. -/
  | create (s : Subset) (origin : Origin)
  /-- A symbol leads from one set to another. -/
  | link (source : State) (symbol : Char) (direct : SortedSet State) (target : Subset)
deriving DecidableEq

/-- The state for a set: the set in braces, with primes if that name is taken. -/
def named (known : List Subset) (members : SortedSet State) : Subset :=
  ⟨members, freshState (known.map Subset.state) (statesText members.toList)⟩

/-- The events and the new sets on the way through some symbols from one set. -/
def eventsFrom (a : Automaton) (source : Subset) :
    List Char → List Subset → List Event × List Subset
  | [], _ => ([], [])
  | c :: cs, known =>
    let direct := a.move source.members.toList c
    let target := a.closure direct.toList
    if target.isEmpty then eventsFrom a source cs known
    else match known.find? fun s => decide (s.members = target) with
      | some s =>
        let rest := eventsFrom a source cs known
        (.link source.state c direct s :: rest.1, rest.2)
      | none =>
        let s := named known target
        let rest := eventsFrom a source cs (known ++ [s])
        (.create s (.moved source.state c direct) :: .link source.state c direct s :: rest.1,
          s :: rest.2)

/-- The events on the way through a queue of sets. -/
def explore (a : Automaton) : Nat → List Subset → List Subset → List Event
  | 0, _, _ => []
  | _ + 1, _, [] => []
  | n + 1, known, s :: queue =>
    let found := eventsFrom a s a.alphabet.toList known
    found.1 ++ explore a n (known ++ found.2) (queue ++ found.2)

/-- The closure of the start state. -/
def first (a : Automaton) : Subset := named [] a.initial

/-- All events; there are no more sets to treat than sets of states. -/
def events (a : Automaton) : List Event :=
  .create (first a) .initial :: explore a (Nat.pow 2 a.size) [first a] [first a]

/-- The deterministic automaton before any event. -/
def blank (a : Automaton) : Automaton where
  kind := .deterministic
  states := .empty
  alphabet := a.alphabet
  transitions := .empty
  start := (first a).state
  accepting := .empty

/-- What an event does to the deterministic automaton. -/
def Event.apply (a d : Automaton) : Event → Automaton
  | create s _ =>
    { d with
      states := d.states.insert s.state
      accepting := if s.members.any a.isAccepting then d.accepting.insert s.state else d.accepting }
  | link source c _ target =>
    { d with transitions := d.transitions.insert ⟨source, .symbol c, target.state⟩ }

/-- Why a set is looked at. -/
def Origin.story (a : Automaton) (members : SortedSet State) : Origin → String
  | initial =>
    "The initial DFA state is the ε-closure of the NFA start state " ++ a.start.name ++
      ", which is " ++ statesText members.toList ++ "."
  | moved source c direct =>
    "From " ++ source.name ++ " on input '" ++ Text.symbol c ++ "' the NFA reaches " ++
      statesText direct.toList ++ ", whose ε-closure is " ++ statesText members.toList ++ "."

/-- Whether a set is accepting, and why. -/
def acceptanceStory (a : Automaton) (members : SortedSet State) : String :=
  let accepting := members.filter a.isAccepting
  if accepting.isEmpty then "It contains no accepting NFA state, so it is not accepting."
  else "It contains the accepting NFA state(s) " ++ statesText accepting.toList ++
    ", so it is accepting."

/-- The label of an event. -/
def Event.label : Event → String
  | create s _ => "Create DFA state " ++ s.state.name
  | link source c _ target =>
    "δ(" ++ source.name ++ ", " ++ Text.symbol c ++ ") = " ++ target.state.name

/-- What is told about an event. -/
def Event.story (a : Automaton) : Event → String
  | create s origin => origin.story a s.members ++ " " ++ acceptanceStory a s.members
  | link source c direct target =>
    (Origin.moved source c direct).story a target.members ++ " Add this transition to the DFA."

/-- The steps that show the events, from a given automaton on. -/
def narrate (a : Automaton) (d : Automaton) : List Event → List Trace.Entry
  | [] => []
  | e :: es =>
    let next := e.apply a d
    .showing e.label (e.story a) (.automaton next) :: narrate a next es

/-- What events make of a deterministic automaton. -/
def replay (a d : Automaton) (es : List Event) : Automaton := es.foldl (Event.apply a) d

end Subset

/-- The deterministic automaton of an automaton whose parts fit together, and its discovery. -/
def subsets (a : Automaton) : Automaton × Trace :=
  let events := Subset.events a
  let d := Subset.replay a (Subset.blank a) events
  let opening := "We start by creating the DFA from the NFA using the subset construction. " ++
    "Each DFA state will represent a set of NFA states."
  let closing := "All " ++ d.size.repr ++ " DFA states have been processed. The resulting DFA " ++
    "is equivalent to the original NFA and accepts the same language."
  (d, ⟨opening, Subset.narrate a (Subset.blank a) events ++
    [.showing "DFA construction complete" closing (.automaton d)]⟩)

/-- The deterministic automaton of an automaton and its discovery, or what does not fit. -/
def determinise (a : Automaton) : Except Defect (Automaton × Trace) :=
  match a.defect? with
  | some d => .error d
  | none => .ok a.subsets

end Automaton
end LanguageForms
