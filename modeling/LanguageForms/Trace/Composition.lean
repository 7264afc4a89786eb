/-
# How traces are put together

A trace is recorded step by step, or joined from two traces.  A `Composition`
keeps how that was done; `Composition.trace` is the trace that comes of it.

A trace keeps its opening apart from its steps.  Kept as one list, the opening is the
first entry, and joining leaves out the first entry of the second list without looking
at it (`joinEntries`, `Composition.listed`).
-/
import LanguageForms.Trace

namespace LanguageForms
namespace Trace

/-- A step to be recorded: its label, its explanation and the object that it shows. -/
structure Record where
  label : String
  explanation : String
  snapshot : Snapshot
deriving DecidableEq

/-- The entry of a recorded step. -/
def Record.entry (r : Record) : Entry := .showing r.label r.explanation r.snapshot

/-- Joins two lists of entries: behind the first list stand a delimiter and the second list without
its first entry, whatever that is. -/
def joinEntries (es : List Entry) (label explanation : String) (fs : List Entry) : List Entry :=
  es ++ [⟨label, explanation, none⟩] ++ fs.drop 1

/-- A trace that is recorded, or joined from two. -/
inductive Composition where
  | recorded (opening : String) (steps : List Record)
  | joined (first : Composition) (label explanation : String) (second : Composition)

namespace Composition

/-- The trace that comes of it. -/
def trace : Composition → Trace
  | recorded opening steps =>
    steps.foldl (fun t r => t.record r.label r.explanation r.snapshot) (start opening)
  | joined first label explanation second => first.trace.andThen label explanation second.trace

/-- All entries that come of it, kept as one list. -/
def listed : Composition → List Entry
  | recorded opening steps =>
    steps.foldl (fun es r => es ++ [r.entry]) [⟨openingLabel, opening, none⟩]
  | joined first label explanation second =>
    joinEntries first.listed label explanation second.listed

/-- The opening of the leftmost part. -/
def opening : Composition → String
  | recorded opening _ => opening
  | joined first _ _ _ => first.opening

/-- The recorded steps of all parts, from left to right. -/
def steps : Composition → List Record
  | recorded _ steps => steps
  | joined first _ _ second => first.steps ++ second.steps

/-- The delimiters of all joints, from left to right. -/
def delimiters : Composition → List Entry
  | recorded _ _ => []
  | joined first label explanation second =>
    first.delimiters ++ ⟨label, explanation, none⟩ :: second.delimiters

end Composition
end Trace
end LanguageForms
