/-
# The closure is the least closed set, and the search ends with it

Visiting states puts those at the end of the queue that were not found before, each of
them once (`Search.exists_new_visitAll`).

The search for the closure keeps four things (`Search.Explores`): the given states are
found, nothing outside of the closure is, the queue holds states that are found, and
the empty moves of every other one that is found have been followed.  A round keeps
them (`Explores.round`), and when the queue is empty they say that what is found is
closed, so it is the closure (`Explores.found_eq`).  A round takes one state out of the
queue and puts in as many as it finds, and no more can be found than the closure has;
so the queue comes to its end (`Explores.endsWith`).
-/
import LanguageForms.Automaton.Search
import LanguageForms.Proofs.Automaton.Run
import Mathlib.Data.List.Perm.Subperm
import Mathlib.Logic.Relation

namespace LanguageForms

section

variable {α : Type} [Sortable α] {s t : SortedSet α} {a : α}

/-- One more member is one more to count. -/
theorem SortedSet.size_insert (h : ¬ a ∈ s) : (s.insert a).size = s.size + 1 :=
  size_eq_length (List.nodup_cons.2 ⟨h, s.nodup⟩) fun _ => mem_insert.trans List.mem_cons.symm

/-- A subset has at most as many members. -/
theorem SortedSet.size_le_of_subset (h : ∀ a ∈ s, a ∈ t) : s.size ≤ t.size :=
  (List.subperm_of_subset s.nodup h).length_le

end

namespace Automaton

variable {a : Automaton} {qs : List State} {p q : State}

namespace Search

variable {s t : Search}

/-! ### One round -/

/-- What is found is what was found and what is visited. -/
theorem mem_found_visitAll : p ∈ (s.visitAll qs).found ↔ p ∈ s.found ∨ p ∈ qs := by
  induction qs generalizing s with
  | nil => exact (or_iff_left List.not_mem_nil).symm
  | cons q qs ih =>
    have hvisit : p ∈ (s.visit q).found ↔ p ∈ s.found ∨ p = q := by
      rw [visit]
      split
      · next hq => exact ⟨.inl, fun h => h.elim id fun heq => heq ▸ hq⟩
      · exact SortedSet.mem_insert.trans or_comm
    exact ih.trans (by rw [hvisit, or_assoc, List.mem_cons])

/-- **Visiting states** puts the new ones at the end of the queue, each of them once. -/
theorem exists_new_visitAll (s : Search) (qs : List State) :
    ∃ new, (s.visitAll qs).queue = s.queue ++ new ∧
      (s.visitAll qs).found.size = s.found.size + new.length ∧
      ∀ p, p ∈ new ↔ p ∈ qs ∧ ¬ p ∈ s.found := by
  induction qs generalizing s with
  | nil => exact ⟨[], (List.append_nil _).symm, rfl, fun p => by simp⟩
  | cons q qs ih =>
    obtain ⟨new, hqueue, hsize, hnew⟩ := ih (s.visit q)
    rw [visitAll, List.foldl_cons]
    by_cases hq : q ∈ s.found
    · rw [visit, if_pos hq] at hqueue hsize hnew ⊢
      refine ⟨new, hqueue, hsize, fun p => (hnew p).trans ?_⟩
      rw [List.mem_cons, or_and_right, or_iff_right fun h => h.2 (h.1 ▸ hq)]
    · rw [visit, if_neg hq] at hqueue hsize hnew ⊢
      refine ⟨q :: new, ?_, ?_, fun p => ?_⟩
      · exact hqueue.trans (List.append_assoc ..)
      · refine hsize.trans ?_
        rw [SortedSet.size_insert hq, List.length_cons]
        omega
      · rw [List.mem_cons, hnew, SortedSet.mem_insert, List.mem_cons]
        grind

/-- No round is left when the queue is empty. -/
theorem round?_eq_none_iff : s.round? a = none ↔ s.queue = [] := by
  rw [round?]
  cases s.queue with
  | nil => exact iff_of_true rfl rfl
  | cons q queue => exact iff_of_false (Option.some_ne_none _) (List.cons_ne_nil _ _)

/-- A round treats the first state of the queue. -/
theorem round?_eq_some_iff : s.round? a = some t ↔ ∃ p queue, s.queue = p :: queue ∧
    t = visitAll ⟨s.found, queue⟩ (a.successors p .epsilon) := by
  rw [round?]
  cases s.queue with
  | nil => simp
  | cons q queue => simp [eq_comm]

/-- A round makes the queue longer by what it finds, and shorter by one. -/
theorem length_round (h : s.round? a = some t) :
    t.queue.length + s.found.size + 1 = t.found.size + s.queue.length := by
  obtain ⟨p, queue, hp, rfl⟩ := round?_eq_some_iff.1 h
  obtain ⟨new, hqueue, hsize, -⟩ :=
    exists_new_visitAll ⟨s.found, queue⟩ (a.successors p .epsilon)
  rw [hqueue, hsize, hp, List.length_append, List.length_cons]
  show queue.length + new.length + s.found.size + 1 = s.found.size + new.length + (queue.length + 1)
  omega

/-! ### All rounds -/

/-- The search knows the given states, finds nothing outside of their closure, and has followed
the empty moves of all that it has found and treated. -/
structure Explores (a : Automaton) (qs : List State) (s : Search) : Prop where
  given : ∀ q ∈ qs, q ∈ s.found
  within : ∀ q ∈ s.found, q ∈ a.closure qs
  queued : ∀ q ∈ s.queue, q ∈ s.found
  followed : ∀ p ∈ s.found, p ∈ s.queue ∨ ∀ q, a.EmptyMove p q → q ∈ s.found

/-- A search that has just begun keeps what searches keep. -/
theorem explores_start (a : Automaton) (qs : List State) : Explores a qs (start qs) := by
  obtain ⟨new, hqueue, -, hnew⟩ := exists_new_visitAll ⟨.empty, []⟩ qs
  have hfound : ∀ q, q ∈ (start qs).found ↔ q ∈ qs := fun q =>
    mem_found_visitAll.trans (or_iff_right SortedSet.not_mem_empty)
  have hmem : ∀ q, q ∈ (start qs).queue ↔ q ∈ qs := fun q => by
    rw [start, hqueue, List.nil_append, hnew, and_iff_left SortedSet.not_mem_empty]
  constructor
  case given => exact fun q hq => (hfound q).2 hq
  case within => exact fun q hq => mem_closure_of_mem ((hfound q).1 hq)
  case queued => exact fun q hq => (hfound q).2 ((hmem q).1 hq)
  case followed => exact fun p hp => .inl ((hmem p).2 ((hfound p).1 hp))

/-- **A round** keeps what the search has explored. -/
theorem Explores.round (h : Explores a qs s) (hround : s.round? a = some t) :
    Explores a qs t := by
  obtain ⟨p, queue, hp, rfl⟩ := round?_eq_some_iff.1 hround
  obtain ⟨new, hqueue, -, hnew⟩ := exists_new_visitAll ⟨s.found, queue⟩ (a.successors p .epsilon)
  have hold : ∀ q ∈ s.found, q ∈ (visitAll ⟨s.found, queue⟩ (a.successors p .epsilon)).found :=
    fun q hq => mem_found_visitAll.2 (.inl hq)
  constructor
  case given => exact fun q hq => hold q (h.given q hq)
  case within =>
    intro q hq
    rcases mem_found_visitAll.1 hq with hq | hq
    · exact h.within q hq
    · exact closure_closed (h.within p (h.queued p (hp ▸ List.mem_cons_self ..)))
        (mem_successors.1 hq)
  case queued =>
    intro q hq
    rcases List.mem_append.1 (hqueue ▸ hq) with hq | hq
    · exact hold q (h.queued q (hp ▸ List.mem_cons_of_mem p hq))
    · exact mem_found_visitAll.2 (.inr ((hnew q).1 hq).1)
  case followed =>
    intro r hr
    rw [hqueue]
    by_cases hrs : r ∈ s.found
    · rcases h.followed r hrs with hqueued | hall
      · rcases List.mem_cons.1 (hp ▸ hqueued) with rfl | hqueued
        · -- the state that is treated: its empty moves are followed now
          exact .inr fun q hq => mem_found_visitAll.2 (.inr (mem_successors.2 hq))
        · exact .inl (List.mem_append_left _ hqueued)
      · exact .inr fun q hq => hold q (hall q hq)
    · have hvisited := (mem_found_visitAll.1 hr).resolve_left hrs
      exact .inl (List.mem_append_right _ ((hnew r).2 ⟨hvisited, hrs⟩))

/-- With an empty queue the search has found the closure. -/
theorem Explores.found_eq (h : Explores a qs s) (hqueue : s.queue = []) :
    s.found = a.closure qs := by
  have hclosed : ∀ p q, a.EmptyMove p q → p ∈ s.found → q ∈ s.found := fun p q hpq hp =>
    (h.followed p hp).resolve_left (hqueue ▸ List.not_mem_nil) q hpq
  exact SortedSet.ext_mem fun q => ⟨h.within q, closure_least h.given hclosed q⟩

/-- **The search ends**, and what it has found is the closure. -/
theorem Explores.endsWith {n : Nat} (h : Explores a qs s)
    (hn : (a.closure qs).size + s.queue.length ≤ n + s.found.size) :
    s.EndsWith a (a.closure qs) := by
  have hsize : s.found.size ≤ (a.closure qs).size := SortedSet.size_le_of_subset h.within
  induction n generalizing s with
  | zero =>
    have hqueue : s.queue = [] := List.eq_nil_of_length_eq_zero (by omega)
    exact h.found_eq hqueue ▸ .done (round?_eq_none_iff.2 hqueue)
  | succ n ih =>
    cases hround : s.round? a with
    | none => exact h.found_eq (round?_eq_none_iff.1 hround) ▸ .done hround
    | some t =>
      have ht : Explores a qs t := h.round hround
      have hlength := length_round hround
      exact .round hround (ih ht (by omega) (SortedSet.size_le_of_subset ht.within))

end Search

/-! ### The closure -/

/-- The set contains the states, no empty move leads out of it, and it lies in every set of which
both is true. -/
structure IsLeastClosed (a : Automaton) (qs : List State) (s : SortedSet State) : Prop where
  contains : ∀ q ∈ qs, q ∈ s
  closed : ∀ p q, a.EmptyMove p q → p ∈ s → q ∈ s
  least : ∀ P : State → Prop, (∀ q ∈ qs, P q) → (∀ p q, a.EmptyMove p q → P p → P q) →
    ∀ q ∈ s, P q

/-- **The closure** is the least closed set with the given states. -/
theorem isLeastClosed_closure (a : Automaton) (qs : List State) :
    a.IsLeastClosed qs (a.closure qs) where
  contains _ hq := mem_closure_of_mem hq
  closed _ _ hpq hp := closure_closed hp hpq
  least _ hqs hP := closure_least hqs hP

/-- There is one least closed set. -/
theorem IsLeastClosed.unique {s t : SortedSet State} (hs : a.IsLeastClosed qs s)
    (ht : a.IsLeastClosed qs t) : s = t :=
  SortedSet.ext_mem fun q =>
    ⟨hs.least (· ∈ t) ht.contains ht.closed q, ht.least (· ∈ s) hs.contains hs.closed q⟩

/-- More states have a larger closure. -/
theorem closure_mono {ps : List State} (h : ∀ q ∈ qs, q ∈ ps) :
    ∀ q ∈ a.closure qs, q ∈ a.closure ps :=
  closure_least (fun q hq => mem_closure_of_mem (h q hq)) fun _ _ hpq hp => closure_closed hp hpq

/-- A path that reads nothing is a number of empty moves. -/
theorem path_nil_iff : a.Path p [] q ↔ Relation.ReflTransGen a.EmptyMove p q := by
  constructor
  · intro h
    generalize hw : ([] : List Char) = w at h
    induction h with
    | nil q => exact .refl
    | @cons p r q l w ht _ ih =>
      obtain ⟨hl, rfl⟩ := List.append_eq_nil_iff.1 hw.symm
      cases l with
      | symbol c => cases hl
      | epsilon => exact .head ht (ih rfl)
  · intro h
    induction h with
    | refl => exact .nil p
    | tail _ hmove ih => exact ih.append (.single hmove)

/-- **The search for the closure ends with it**, and the closure has exactly the states that a
number of empty moves leads to from one of the given states.  It is the least closed set around
these, it does not depend on their order and on how often they are given, more states have a
larger closure, and the closure is its own closure. -/
theorem closure_isLeastClosed (a : Automaton) (qs : List State) :
    (Search.start qs).EndsWith a (a.closure qs) ∧
      (∀ q, q ∈ a.closure qs ↔ ∃ p ∈ qs, Relation.ReflTransGen a.EmptyMove p q) ∧
      a.IsLeastClosed qs (a.closure qs) ∧
      (∀ ps : List State, (∀ q, q ∈ ps ↔ q ∈ qs) → a.closure ps = a.closure qs) ∧
      (∀ ps : List State, (∀ q ∈ qs, q ∈ ps) → ∀ q ∈ a.closure qs, q ∈ a.closure ps) ∧
      a.closure (a.closure qs).toList = a.closure qs := by
  refine ⟨?ends, ?reached, isLeastClosed_closure a qs, ?given, fun ps hps => closure_mono hps,
    ?again⟩
  case ends =>
    have hstart := Search.explores_start a qs
    exact hstart.endsWith (Nat.le_add_right _ _)
  case reached =>
    intro q
    rw [mem_closure_iff]
    simp only [path_nil_iff]
  case given =>
    intro ps hps
    exact SortedSet.ext_mem fun q =>
      ⟨closure_mono (fun q hq => (hps q).1 hq) q, closure_mono (fun q hq => (hps q).2 hq) q⟩
  case again =>
    -- a closed set is the least closed set around its own members
    exact (isLeastClosed_closure a _).unique
      ⟨fun q hq => hq, (isLeastClosed_closure a qs).closed, fun P hP _ => hP⟩

end Automaton
end LanguageForms
