/-
# The history of a conversion

A trace begins with an entry that says what is about to be done and shows nothing
yet, and goes on with the steps that were taken.  Step `i` is entry `i`, and shows
the object after that step.  Joining two traces puts a delimiter between them and
drops the opening of the second, so there is one opening again.
-/
import LanguageForms.Generalized.Basic
import LanguageForms.Pushdown.Basic

namespace LanguageForms

/-- The object that a step shows. -/
inductive Snapshot where
  | automaton (a : Automaton)
  | generalized (g : Generalized)
  | pushdown (p : Pushdown)
  | regex (r : Regex)
deriving DecidableEq

/-- The text of the object. -/
def Snapshot.text : Snapshot → String
  | automaton a => a.text
  | generalized g => g.text
  | pushdown p => p.text
  | regex r => r.text

/-- Whether two objects are the same; the order of states does not matter. -/
def Snapshot.sameAs : Snapshot → Snapshot → Bool
  | automaton a, automaton b => a.sameAs b
  | generalized g, generalized h => g.sameAs h
  | pushdown p, pushdown q => p.sameAs q
  | regex r, regex s => decide (r = s)
  | _, _ => false

/-- A step: a short label, what happened, and the object after it. -/
structure Trace.Entry where
  label : String
  explanation : String
  snapshot : Option Snapshot
deriving DecidableEq

/-- A step that shows an object. -/
def Trace.Entry.showing (label explanation : String) (s : Snapshot) : Trace.Entry :=
  ⟨label, explanation, some s⟩

/-- What is about to be done, and the steps that were taken. -/
structure Trace where
  opening : String
  steps : List Trace.Entry
deriving DecidableEq

/-- Whether two steps are the same. -/
def Trace.Entry.sameAs (d e : Trace.Entry) : Bool :=
  decide (d.label = e.label) && decide (d.explanation = e.explanation) &&
    match d.snapshot, e.snapshot with
    | some s, some t => s.sameAs t
    | none, none => true
    | _, _ => false

namespace Trace

/-- The label of the first entry. -/
def openingLabel : String := "Initialized"

/-- A trace without steps. -/
def start (opening : String) : Trace := ⟨opening, []⟩

/-- Adds a step that shows an object. -/
def record (t : Trace) (label explanation : String) (s : Snapshot) : Trace :=
  { t with steps := t.steps ++ [.showing label explanation s] }

/-- All entries, the opening first. -/
def entries (t : Trace) : List Entry := ⟨openingLabel, t.opening, none⟩ :: t.steps

/-- The number of entries. -/
def length (t : Trace) : Nat := t.entries.length

/-- The entry of a step. -/
def get? (t : Trace) (step : Nat) : Option Entry := t.entries[step]?

/-- The last entry. -/
def last (t : Trace) : Entry := t.entries.getLast (List.cons_ne_nil _ _)

/-- Whether the steps of two lists are the same, one by one. -/
def sameSteps : List Entry → List Entry → Bool
  | [], [] => true
  | d :: ds, e :: es => d.sameAs e && sameSteps ds es
  | _, _ => false

/-- Whether two traces are the same. -/
def sameAs (t u : Trace) : Bool := decide (t.opening = u.opening) && sameSteps t.steps u.steps

/-- The labels of all entries. -/
def labels (t : Trace) : List String := t.entries.map Entry.label

/-- Continues with another trace behind a delimiter. -/
def andThen (t : Trace) (label explanation : String) (u : Trace) : Trace :=
  { t with steps := t.steps ++ ⟨label, explanation, none⟩ :: u.steps }

/-- The lines of the entries from a given number on. -/
def linesFrom (i : Nat) : List Entry → List String
  | [] => []
  | e :: es =>
    ("Step " ++ i.repr ++ ": " ++ e.label ++ "\n    " ++ e.explanation ++ "\n") ::
      linesFrom (i + 1) es

/-- Two lines for an entry. -/
def text (t : Trace) : String := Text.joined (linesFrom 0 t.entries)

/-- The lengths of joined traces add up. -/
theorem length_andThen (t u : Trace) (label explanation : String) :
    (t.andThen label explanation u).length = t.length + u.length := by
  simp only [length, entries, andThen, List.length_cons, List.length_append]
  omega

end Trace

end LanguageForms
