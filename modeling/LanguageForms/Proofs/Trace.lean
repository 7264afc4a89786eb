/-
# What the entries of a trace show

Every engine records a step only together with the object that it leads to, and its
last step shows the result (`Trace.Tells`).  If two such traces are joined, the
delimiter is the only step that shows nothing, it stands where the first trace ends
(`snapshot_eq_none_iff_of_andThen`), and the last step is that of the second trace
(`last_andThen`).
-/
import LanguageForms.Trace

namespace LanguageForms
namespace Trace

variable {t u : Trace} {label explanation opening : String} {e : Entry} {l : List Entry}
  {s : Snapshot} {P : Snapshot → Prop} {i : Nat}

/-- Every step shows something, and the last entry shows something with a given property. -/
structure Tells (t : Trace) (P : Snapshot → Prop) : Prop where
  shown : ∀ e ∈ t.steps, e.snapshot ≠ none
  last : ∃ s, t.last.snapshot = some s ∧ P s

/-- The entries behind the opening are the steps. -/
theorem get?_succ (t : Trace) (i : Nat) : t.get? (i + 1) = t.steps[i]? := rfl

/-- The last entry is the last step, if there is one. -/
theorem last_eq_getLast (h : t.steps ≠ []) : t.last = t.steps.getLast h := List.getLast_cons h

/-- A step that is added is the last entry. -/
theorem last_concat (opening : String) (l : List Entry) (e : Entry) :
    (⟨opening, l ++ [e]⟩ : Trace).last = e := by
  have hne : (⟨opening, l ++ [e]⟩ : Trace).steps ≠ [] :=
    List.append_ne_nil_of_right_ne_nil _ (List.cons_ne_nil _ _)
  rw [last_eq_getLast hne]
  exact List.getLast_concat

/-- A trace tells what its last step shows if the steps before it show something. -/
theorem tells_concat (hl : ∀ e ∈ l, e.snapshot ≠ none) (he : ∃ s, e.snapshot = some s ∧ P s) :
    (⟨opening, l ++ [e]⟩ : Trace).Tells P where
  shown d hd := by
    rcases List.mem_append.1 hd with hd | hd
    · exact hl d hd
    · obtain ⟨s, hs, -⟩ := he
      rw [List.mem_singleton.1 hd, hs]
      exact Option.some_ne_none s
  last := by
    rw [last_concat]
    exact he

/-! ### Two traces -/

/-- Joined traces end as the second one does, if it has a step. -/
theorem last_andThen (h : u.steps ≠ []) : (t.andThen label explanation u).last = u.last := by
  have hne : (t.andThen label explanation u).steps ≠ [] :=
    List.append_ne_nil_of_right_ne_nil _ (List.cons_ne_nil _ _)
  rw [last_eq_getLast hne, last_eq_getLast h]
  exact (List.getLast_append_of_ne_nil hne (List.cons_ne_nil _ _)).trans (List.getLast_cons h)

/-- The delimiter stands behind the entries of the first trace. -/
theorem get?_length_andThen :
    (t.andThen label explanation u).get? t.length = some ⟨label, explanation, none⟩ := by
  show (t.steps ++ ⟨label, explanation, none⟩ :: u.steps)[t.steps.length]? = _
  rw [List.getElem?_append_right (Nat.le_refl _), Nat.sub_self]
  rfl

/-- **The delimiter is the only step that shows nothing** if all steps of both traces show
something. -/
theorem snapshot_eq_none_iff_of_andThen (ht : ∀ e ∈ t.steps, e.snapshot ≠ none)
    (hu : ∀ e ∈ u.steps, e.snapshot ≠ none) (hi : 0 < i)
    (he : (t.andThen label explanation u).get? i = some e) :
    e.snapshot = none ↔ i = t.length := by
  obtain ⟨k, rfl⟩ := Nat.exists_eq_add_of_le' hi
  rw [get?_succ, andThen, List.getElem?_append] at he
  show e.snapshot = none ↔ k + 1 = t.steps.length + 1
  split at he
  · next hk =>
    -- a step of the first trace
    have hmem : e ∈ t.steps := List.mem_of_getElem? he
    exact iff_of_false (ht e hmem) (by omega)
  · next hk =>
    rcases Nat.eq_or_lt_of_le (Nat.le_of_not_lt hk) with heq | hlt
    · -- the delimiter
      rw [heq, Nat.sub_self] at he
      rw [← Option.some.inj he]
      exact iff_of_true rfl (congrArg (· + 1) heq.symm)
    · -- a step of the second trace
      obtain ⟨j, hj⟩ := Nat.exists_eq_add_of_lt hlt
      rw [hj, show t.steps.length + j + 1 - t.steps.length = j + 1 by omega] at he
      have hmem : e ∈ u.steps := List.mem_of_getElem? (l := u.steps) (i := j) he
      exact iff_of_false (hu e hmem) (by omega)

end Trace
end LanguageForms
