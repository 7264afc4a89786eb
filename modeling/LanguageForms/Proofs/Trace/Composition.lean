/-
# Joined traces have the shape of a trace

Joining two lists of entries drops the first entry of the second one, whatever it is.
What is dropped is always the opening: every list of entries that comes of a composition
is its opening and the entries behind it, which are the recorded steps and the delimiters
from left to right (`Composition.listed_eq`).  The trace that keeps the opening apart has
the same entries (`Composition.listed_eq_entries`).  So a composition of any nesting has
one opening in front, shows nothing there and at its delimiters only, and keeps the
recorded steps in their order (`Composition.trace_isShaped`).
-/
import LanguageForms.Trace.Composition

namespace LanguageForms
namespace Trace

/-- Recording steps appends their entries. -/
theorem foldl_record (steps : List Record) (t : Trace) :
    steps.foldl (fun t r => t.record r.label r.explanation r.snapshot) t =
      ⟨t.opening, t.steps ++ steps.map Record.entry⟩ := by
  induction steps generalizing t with
  | nil => simp
  | cons r steps ih =>
    rw [List.foldl_cons, ih]
    simp [record, Record.entry]

/-- Traces can be joined in any nesting. -/
theorem andThen_assoc (s t u : Trace) (label₁ explanation₁ label₂ explanation₂ : String) :
    (s.andThen label₁ explanation₁ t).andThen label₂ explanation₂ u =
      s.andThen label₁ explanation₁ (t.andThen label₂ explanation₂ u) := by
  simp [andThen]

namespace Composition

/-- All entries behind the opening: the recorded steps and the delimiters. -/
def body : Composition → List Entry
  | recorded _ steps => steps.map Record.entry
  | joined first label explanation second =>
    first.body ++ ⟨label, explanation, none⟩ :: second.body

/-- **A composition is its opening and what stands behind it**, however it is nested. -/
theorem trace_eq (c : Composition) : c.trace = ⟨c.opening, c.body⟩ := by
  induction c with
  | recorded opening rs =>
    rw [trace, foldl_record]
    simp [start, Composition.opening, body]
  | joined first label explanation second ihf ihs =>
    rw [trace, ihf, ihs]
    simp [andThen, Composition.opening, body]

/-- **Every list of entries begins with its opening**, joined ones included, so what joining leaves
out is the opening of the second list. -/
theorem listed_eq (c : Composition) :
    c.listed = ⟨openingLabel, c.opening, none⟩ :: c.body := by
  induction c with
  | recorded opening steps =>
    rw [listed, List.foldl_append_eq_append, ← List.flatMap_def, ← List.map_eq_flatMap]
    rfl
  | joined first label explanation second ihf ihs =>
    rw [listed, joinEntries, ihf, ihs]
    simp [Composition.opening, body]

/-- **Kept as one list or with the opening apart**, the entries are the same. -/
theorem listed_eq_entries (c : Composition) : c.listed = c.trace.entries := by
  rw [listed_eq, trace_eq]
  rfl

/-- The delimiters are the entries of the body that show nothing. -/
theorem filter_isNone_body (c : Composition) :
    c.body.filter (fun e => e.snapshot.isNone) = c.delimiters := by
  induction c with
  | recorded opening rs =>
    simp [body, delimiters, Record.entry, Entry.showing]
  | joined first label explanation second ihf ihs =>
    simp [body, delimiters, ihf, ihs]

/-- The recorded steps are the entries of the body that show something. -/
theorem filter_isSome_body (c : Composition) :
    c.body.filter (fun e => e.snapshot.isSome) = c.steps.map Record.entry := by
  induction c with
  | recorded opening rs =>
    simp [body, steps, Record.entry, Entry.showing]
  | joined first label explanation second ihf ihs =>
    simp [body, steps, ihf, ihs]

/-- **Joined traces have the shape of a trace.**  The opening of the leftmost part stands in
front; it and one delimiter for every joint are all that shows nothing; every recorded step is
there once, in the order of the parts.  Joining appends a delimiter and the second trace without
its first entry, adds the lengths, and does not depend on how it is nested. -/
theorem trace_isShaped (c : Composition) :
    c.trace.get? 0 = some ⟨openingLabel, c.opening, none⟩ ∧
    c.trace.entries.filter (fun e => e.snapshot.isNone) =
      ⟨openingLabel, c.opening, none⟩ :: c.delimiters ∧
    c.trace.entries.filter (fun e => e.snapshot.isSome) = c.steps.map Record.entry ∧
    (∀ label explanation d, (c.joined label explanation d).trace.entries =
      c.trace.entries ++ ⟨label, explanation, none⟩ :: d.trace.entries.tail) ∧
    (∀ label explanation d, (c.joined label explanation d).trace.length =
      c.trace.length + d.trace.length) ∧
    ∀ label₁ explanation₁ b label₂ explanation₂ d,
      ((c.joined label₁ explanation₁ b).joined label₂ explanation₂ d).trace =
        (c.joined label₁ explanation₁ (b.joined label₂ explanation₂ d)).trace := by
  refine ⟨?_, ?_, ?_, fun label explanation d => ?_, fun label explanation d => ?_, ?_⟩
  · rw [trace_eq]
    rfl
  · rw [trace_eq]
    simp [entries, filter_isNone_body]
  · rw [trace_eq]
    simp [entries, filter_isSome_body]
  · rw [← listed_eq_entries, ← listed_eq_entries, ← listed_eq_entries, listed, joinEntries,
      List.drop_one, List.append_assoc]
    rfl
  · exact length_andThen c.trace d.trace label explanation
  · intro label₁ explanation₁ b label₂ explanation₂ d
    exact andThen_assoc c.trace b.trace d.trace label₁ explanation₁ label₂ explanation₂

end Composition
end Trace
end LanguageForms
