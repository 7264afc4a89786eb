/-
# An automaton for a regular expression

The automaton is put together along the syntax tree.  Every subexpression gets a
fragment with one start and one accepting state: two new states, except that a
concatenation uses the start of its left and the accepting state of its right
part.  States are numbered in the order in which they are made, parts before the
whole, so the fragments of different parts have no state in common.
-/
import LanguageForms.Regex.Printer
import LanguageForms.Trace

namespace LanguageForms

/-- The part of an automaton for a subexpression. -/
structure Fragment where
  start : State
  accept : State
  states : DistinctList State
  transitions : SortedSet Transition
deriving DecidableEq

namespace Fragment

/-- Two states linked by a transition. -/
def basic (start accept : State) (label : Label) : Fragment where
  start := start
  accept := accept
  states := .ofList [start, accept]
  transitions := .singleton ⟨start, label, accept⟩

/-- One fragment after the other, linked by a transition that reads nothing. -/
def inSequence (left right : Fragment) : Fragment where
  start := left.start
  accept := right.accept
  states := left.states.insertAll right.states.toList
  transitions := (left.transitions.union right.transitions).insert
    ⟨left.accept, .epsilon, right.start⟩

/-- Two fragments side by side between a new start and a new accepting state. -/
def inParallel (start accept : State) (left right : Fragment) : Fragment where
  start := start
  accept := accept
  states := (left.states.insertAll right.states.toList).insertAll [start, accept]
  transitions := (left.transitions.union right.transitions).insertAll
    [⟨start, .epsilon, left.start⟩, ⟨left.accept, .epsilon, accept⟩,
      ⟨start, .epsilon, right.start⟩, ⟨right.accept, .epsilon, accept⟩]

/-- A fragment that may be skipped or run again. -/
def repeated (start accept : State) (body : Fragment) : Fragment where
  start := start
  accept := accept
  states := body.states.insertAll [start, accept]
  transitions := body.transitions.insertAll
    [⟨start, .epsilon, body.start⟩, ⟨start, .epsilon, accept⟩,
      ⟨body.accept, .epsilon, body.start⟩, ⟨body.accept, .epsilon, accept⟩]

/-- The fragment as an automaton over an alphabet. -/
def toAutomaton (f : Fragment) (alphabet : SortedSet Char) : Automaton where
  kind := .nondeterministic
  states := f.states
  alphabet := alphabet
  transitions := f.transitions
  start := f.start
  accepting := .singleton f.accept

end Fragment

namespace Regex

/-- The number of states that the fragment of an expression has. -/
def stateCount : Regex → Nat
  | symbol _ => 2
  | epsilon => 2
  | union l r => l.stateCount + r.stateCount + 2
  | concat l r => l.stateCount + r.stateCount
  | star r => r.stateCount + 2

/-- What is told about the fragment of an expression. -/
def fragmentStory (r : Regex) (f : Fragment) : String :=
  match r with
  | symbol c =>
    "Create a basic NFA for the symbol '" ++ Text.symbol c ++ "': two states " ++ f.start.name ++
      " and " ++ f.accept.name ++ " linked by a transition on '" ++ Text.symbol c ++ "'."
  | epsilon =>
    "Create a basic NFA for ε: two states " ++ f.start.name ++ " and " ++ f.accept.name ++
      " linked by an ε-transition."
  | concat l r =>
    "Concatenate the NFAs for " ++ l.text ++ " and " ++ r.text ++
      " by an ε-transition from the accepting state of the first to the start state of the second."
  | union l r =>
    "Combine the NFAs for " ++ l.text ++ " and " ++ r.text ++ " with a new start state " ++
      f.start.name ++ " that branches into both by ε-transitions and a new accepting state " ++
      f.accept.name ++ " that both lead into."
  | star r =>
    "Apply the Kleene star to the NFA for " ++ r.text ++ ": the new start state " ++
      f.start.name ++ " may skip to the new accepting state " ++ f.accept.name ++
      ", and the accepting state of the inner NFA loops back to its start."

/-- The step that shows the fragment of an expression. -/
def fragmentEntry (alphabet : SortedSet Char) (r : Regex) (f : Fragment) : Trace.Entry :=
  .showing ("Build " ++ r.operator ++ " for " ++ r.text) (r.fragmentStory f)
    (.automaton (f.toAutomaton alphabet))

/-- The fragment of an expression, its states numbered from `n` on, and the steps that show
the fragments of all subexpressions, parts before the whole. -/
def build (alphabet : SortedSet Char) : Regex → Nat → Fragment × List Trace.Entry
  | symbol c, n =>
    let f := Fragment.basic (.numbered n) (.numbered (n + 1)) (.symbol c)
    (f, [fragmentEntry alphabet (symbol c) f])
  | epsilon, n =>
    let f := Fragment.basic (.numbered n) (.numbered (n + 1)) .epsilon
    (f, [fragmentEntry alphabet epsilon f])
  | concat l r, n =>
    let left := build alphabet l n
    let right := build alphabet r (n + l.stateCount)
    let f := Fragment.inSequence left.1 right.1
    (f, left.2 ++ right.2 ++ [fragmentEntry alphabet (concat l r) f])
  | union l r, n =>
    let left := build alphabet l n
    let right := build alphabet r (n + l.stateCount)
    let k := n + l.stateCount + r.stateCount
    let f := Fragment.inParallel (.numbered k) (.numbered (k + 1)) left.1 right.1
    (f, left.2 ++ right.2 ++ [fragmentEntry alphabet (union l r) f])
  | star r, n =>
    let body := build alphabet r n
    let k := n + r.stateCount
    let f := Fragment.repeated (.numbered k) (.numbered (k + 1)) body.1
    (f, body.2 ++ [fragmentEntry alphabet (star r) f])

/-- The automaton of an expression, and how it is put together. -/
def toAutomaton (r : Regex) : Automaton × Trace :=
  let built := build r.alphabet r 0
  let a := built.1.toAutomaton r.alphabet
  let opening := "Parsed the regular expression " ++ r.text ++
    ". We use Thompson's construction, which builds the NFA fragment by fragment along the " ++
    "syntax tree."
  let closing := "The resulting NFA with " ++ a.size.repr ++
    " states accepts exactly the language defined by the regular expression " ++ r.text ++ "."
  (a, ⟨opening, built.2 ++ [.showing "NFA construction complete" closing (.automaton a)]⟩)

end Regex

end LanguageForms
