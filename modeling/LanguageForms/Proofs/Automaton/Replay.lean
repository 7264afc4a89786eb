/-
# The steps of the discovery can be replayed

Every entry of the trace of a determinisation says what it adds to the automaton that
the entry before shows: a new state behind the others, accepting or not as it will be in
the end, or a new transition between states that are there (`Adds`).  `Replays` says so
of all entries from a given automaton on.

What is added is new and stays (`Adds.has_iff`), so nothing is added twice
(`Replays.nodup`), and nothing else changes (`Replays.frame`).  An event of the discovery
adds what its label names (`adds_apply`): its set has not been created before, or its
transition is not there yet, but the states that it links are.
-/
import LanguageForms.Proofs.Automaton.Narration
import LanguageForms.Proofs.Trace

namespace LanguageForms
namespace Automaton

/-- What an entry of the trace adds. -/
inductive Addition where
  | state (q : State)
  | transition (p : State) (c : Char) (q : State)
deriving DecidableEq

/-- The label of the entry that adds it. -/
def Addition.label : Addition → String
  | state q => "Create DFA state " ++ q.name
  | transition p c q => "δ(" ++ p.name ++ ", " ++ Text.symbol c ++ ") = " ++ q.name

/-- Whether an automaton has the state or the transition. -/
def Has (m : Automaton) : Addition → Prop
  | .state q => q ∈ m.states
  | .transition p c q => ⟨p, .symbol c, q⟩ ∈ m.transitions

/-- The second automaton is the first one with one addition on the way to `d`: a new state, which
comes behind the others and is accepting if it is so in `d`, or a new transition between states
that are there. -/
inductive Adds (d : Automaton) : Automaton → Addition → Automaton → Prop where
  | state {m : Automaton} {q : State} : ¬ q ∈ m.states →
      Adds d m (.state q)
        { m with
          states := m.states.insert q
          accepting := if q ∈ d.accepting then m.accepting.insert q else m.accepting }
  | transition {m : Automaton} {p q : State} {c : Char} : p ∈ m.states → q ∈ m.states →
      ¬ ⟨p, .symbol c, q⟩ ∈ m.transitions →
      Adds d m (.transition p c q)
        { m with transitions := m.transitions.insert ⟨p, .symbol c, q⟩ }

/-- From the first automaton on the entries show, one by one, what the additions make of it, and
the last one is `n`. -/
inductive Replays (d : Automaton) :
    Automaton → List Addition → List Trace.Entry → Automaton → Prop where
  | nil (m : Automaton) : Replays d m [] [] m
  | cons {l m n : Automaton} {x : Addition} {xs : List Addition} {e : Trace.Entry}
      {es : List Trace.Entry} : Adds d l x m → e.label = x.label →
      e.snapshot = some (.automaton m) → Replays d m xs es n → Replays d l (x :: xs) (e :: es) n

/-- An automaton before anything is added. -/
def emptied (d : Automaton) : Automaton :=
  { d with states := .empty, transitions := .empty, accepting := .empty }

variable {a d m n : Automaton} {x y : Addition} {xs : List Addition} {es : List Trace.Entry}

/-! ### What additions keep -/

/-- **One addition** is new, and nothing is lost. -/
theorem Adds.has_iff (h : Adds d m x n) : ¬ m.Has x ∧ ∀ y, n.Has y ↔ m.Has y ∨ y = x := by
  cases h with
  | state hq =>
    refine ⟨hq, fun y => ?_⟩
    cases y with
    | state r => simp only [Has, DistinctList.mem_insert, Addition.state.injEq]
    | transition p c r => simp only [Has, reduceCtorEq, or_false]
  | transition _ _ ht =>
    refine ⟨ht, fun y => ?_⟩
    cases y with
    | state r => simp only [Has, reduceCtorEq, or_false]
    | transition p c q =>
      simp only [Has, SortedSet.mem_insert, Transition.mk.injEq, Label.symbol.injEq,
        Addition.transition.injEq]
      exact or_comm

/-- The alphabet, the start state and the kind stay as they are. -/
theorem Adds.frame (h : Adds d m x n) :
    n.alphabet = m.alphabet ∧ n.start = m.start ∧ n.kind = m.kind := by
  cases h <;> exact ⟨rfl, rfl, rfl⟩

/-- **Nothing is added twice**, nor what was there before. -/
theorem Replays.nodup (h : Replays d m xs es n) : (∀ x ∈ xs, ¬ m.Has x) ∧ xs.Nodup := by
  induction h with
  | nil => exact ⟨fun _ hx => absurd hx List.not_mem_nil, .nil⟩
  | @cons l m n x xs e es hadds _ _ _ ih =>
    obtain ⟨hnew, hhas⟩ := hadds.has_iff
    obtain ⟨hrest, hnodup⟩ := ih
    have hx : ¬ x ∈ xs := fun hx => hrest x hx ((hhas x).2 (.inr rfl))
    refine ⟨List.forall_mem_cons.2 ⟨hnew, fun y hy hl => ?_⟩, List.nodup_cons.2 ⟨hx, hnodup⟩⟩
    exact hrest y hy ((hhas y).2 (.inl hl))

/-- In the end the automaton has what it had and what is added. -/
theorem Replays.has_iff (h : Replays d m xs es n) : n.Has y ↔ m.Has y ∨ y ∈ xs := by
  induction h with
  | nil => exact (or_iff_left List.not_mem_nil).symm
  | cons hadds _ _ _ ih => rw [ih, hadds.has_iff.2, or_assoc, List.mem_cons]

/-- Everything that is shown has the alphabet and the start state that were there before. -/
theorem Replays.frame (h : Replays d m xs es n) : ∀ e ∈ es, ∃ k : Automaton,
    e.snapshot = some (.automaton k) ∧ k.alphabet = m.alphabet ∧ k.start = m.start ∧
      k.kind = m.kind := by
  induction h with
  | nil => exact fun _ he => absurd he List.not_mem_nil
  | @cons l m n x xs e es hadds _ hshown _ ih =>
    obtain ⟨halphabet, hstart, hkind⟩ := hadds.frame
    rw [← halphabet, ← hstart, ← hkind]
    exact List.forall_mem_cons.2 ⟨⟨m, hshown, rfl, rfl, rfl⟩, ih⟩

/-- The last entry shows the last automaton. -/
theorem Replays.getLast? (h : Replays d m xs es n) (hne : es ≠ []) :
    ∃ e, es.getLast? = some e ∧ e.snapshot = some (.automaton n) := by
  induction h with
  | nil => exact absurd rfl hne
  | @cons l m n x xs e es _ _ hshown hrest ih =>
    cases hrest with
    | nil => exact ⟨e, rfl, hshown⟩
    | cons _ _ _ _ =>
      obtain ⟨e', he', hlast⟩ := ih (List.cons_ne_nil _ _)
      exact ⟨e', by rw [List.getLast?_cons_cons, he'], hlast⟩

/-! ### The events -/

namespace Subset

/-- What an event adds. -/
def Event.addition : Event → Addition
  | create s _ => .state s.state
  | link p c _ t => .transition p c t.state

/-- The label of an event names what it adds. -/
theorem Event.label_eq (e : Event) : e.label = e.addition.label := by
  cases e <;> rfl

variable {e : Event} {fs gs : List Event}

/-- A created set is accepting if its state is so in the end. -/
theorem hasAccepting_iff {s : Subset} (hs : s ∈ found a) :
    s.members.any a.isAccepting = true ↔ s.state ∈ a.subsets.1.accepting := by
  rw [mem_accepting_subsets]
  constructor
  · exact fun hacc => ⟨s, hs, hacc, rfl⟩
  · rintro ⟨t, ht, hacc, hstate⟩
    rwa [(table_found a).eq_of_state ht hs hstate] at hacc

/-- **One more event** adds what its label names to what the events before it have made. -/
theorem adds_apply (h : events a = fs ++ e :: gs) :
    Adds a.subsets.1 (replay a (blank a) fs) e.addition (e.apply a (replay a (blank a) fs)) := by
  cases e with
  | create s origin =>
    have hfound : found a = created fs ++ s :: created gs := by
      rw [found, h, created_append]
      rfl
    have hnew : ¬ s.state ∈ (replay a (blank a) fs).states := by
      intro hmem
      obtain ⟨t, ht, hstate⟩ := mem_states_replay.1 hmem
      have hnodup := (table_found a).states
      rw [hfound, List.map_append, List.map_cons] at hnodup
      refine (List.nodup_append.1 hnodup).2.2 t.state (List.mem_map_of_mem ht) s.state
        (List.mem_cons_self ..) hstate
    have hs : s ∈ found a := hfound ▸ List.mem_append_right _ (List.mem_cons_self ..)
    have happly : (Event.create s origin).apply a (replay a (blank a) fs) =
        { replay a (blank a) fs with
          states := (replay a (blank a) fs).states.insert s.state
          accepting := if s.state ∈ a.subsets.1.accepting then
              (replay a (blank a) fs).accepting.insert s.state
            else (replay a (blank a) fs).accepting } := by
      simp only [Event.apply, hasAccepting_iff hs]
    rw [happly]
    exact .state hnew
  | link p c direct t =>
    have hall : Unfolds [] (fs ++ [.link p c direct t] ++ gs) := by
      rw [List.append_assoc, List.singleton_append, ← h]
      exact unfolds_events a
    have hunfolds : Unfolds [] (fs ++ [.link p c direct t]) := hall.of_append
    have hcreated : created (fs ++ [.link p c direct t]) = created fs := by
      rw [created_append]
      exact List.append_nil _
    obtain ⟨hsource, htarget⟩ :=
      hunfolds.mem_of_link (List.mem_append_right _ (List.mem_singleton.2 rfl))
    rw [List.nil_append, hcreated] at hsource htarget
    refine .transition (mem_states_replay.2 hsource) (mem_states_replay.2 ⟨t, htarget, rfl⟩) ?_
    intro hmem
    have hnodup := nodup_links_events a
    rw [h, links_append] at hnodup
    exact (List.nodup_append.1 hnodup).2.2 _ (mem_transitions_replay.1 hmem) _
      (List.mem_cons_self ..) rfl

/-- **The steps replay** the events that are left. -/
theorem replays_narrate (h : events a = fs ++ gs) :
    Replays a.subsets.1 (replay a (blank a) fs) (gs.map Event.addition)
      (narrate a (replay a (blank a) fs) gs) a.subsets.1 := by
  induction gs generalizing fs with
  | nil =>
    have hall : replay a (blank a) fs = a.subsets.1 := by
      rw [List.append_nil] at h
      rw [← h]
      rfl
    rw [hall]
    exact .nil _
  | cons e gs ih =>
    have hnext : e.apply a (replay a (blank a) fs) = replay a (blank a) (fs ++ [e]) := by
      simp [replay]
    have hevents : events a = fs ++ [e] ++ gs := by
      rw [h, List.append_assoc, List.singleton_append]
    have hrest := ih hevents
    rw [← hnext] at hrest
    exact .cons (adds_apply h) e.label_eq rfl hrest

end Subset

open Subset

/-- The result before anything is added is the automaton before any event. -/
theorem emptied_subsets (a : Automaton) : a.subsets.1.emptied = blank a := by
  have heq : a.subsets.1 = replay a (blank a) (events a) := rfl
  rw [heq, replay_eq]
  rfl

/-- **The steps of the discovery can be replayed.**  From an automaton without states on, every
entry behind the opening adds what its label names and nothing else, nothing is added twice, and
alphabet and start state are always those of the deterministic automaton.  The last entry shows it
once more. -/
theorem determinise_replays (a : Automaton) (h : a.check = .ok ()) :
    ∃ d trace additions entries before last, a.determinise = .ok (d, trace) ∧
      trace.entries = ⟨Trace.openingLabel, trace.opening, none⟩ :: (entries ++ [last]) ∧
      Replays d d.emptied additions entries d ∧
      additions.Nodup ∧
      (∀ e ∈ entries ++ [last], ∃ m : Automaton, e.snapshot = some (.automaton m) ∧
        m.alphabet = d.alphabet ∧ m.start = d.start) ∧
      last.label = "DFA construction complete" ∧ entries.getLast? = some before ∧
      last.snapshot = before.snapshot := by
  have ha : a.WellFormed := check_eq_ok_iff.1 h
  have hok : a.determinise = .ok (a.subsets.1, a.subsets.2) := by
    rw [determinise, defect?_eq_none_iff.2 ha]
  have hreplays : Replays a.subsets.1 a.subsets.1.emptied ((events a).map Event.addition)
      (narrate a (blank a) (events a)) a.subsets.1 := by
    rw [emptied_subsets]
    have hevents : events a = [] ++ events a := rfl
    exact replays_narrate hevents
  have hne : narrate a (blank a) (events a) ≠ [] := List.cons_ne_nil _ _
  obtain ⟨before, hbefore, hshown⟩ := hreplays.getLast? hne
  refine ⟨a.subsets.1, a.subsets.2, _, _, before, _, hok, rfl, hreplays, hreplays.nodup.2, ?_, rfl,
    hbefore, hshown.symm⟩
  refine List.forall_mem_append.2 ⟨fun e he => ?_, List.forall_mem_singleton.2 ⟨_, rfl, rfl, rfl⟩⟩
  obtain ⟨m, hm, halphabet, hstart, -⟩ := hreplays.frame e he
  exact ⟨m, hm, halphabet, hstart⟩

/-- The hypothesis of `determinise_replays` is satisfiable by an automaton with two sets that have
the same text. -/
theorem determinise_replays_lookalikes :
    lookalikes.check = .ok () ∧ ∃ d trace additions entries before last,
      lookalikes.determinise = .ok (d, trace) ∧
      trace.entries = ⟨Trace.openingLabel, trace.opening, none⟩ :: (entries ++ [last]) ∧
      Replays d d.emptied additions entries d ∧
      additions.Nodup ∧
      (∀ e ∈ entries ++ [last], ∃ m : Automaton, e.snapshot = some (.automaton m) ∧
        m.alphabet = d.alphabet ∧ m.start = d.start) ∧
      last.label = "DFA construction complete" ∧ entries.getLast? = some before ∧
      last.snapshot = before.snapshot :=
  ⟨rfl, determinise_replays lookalikes rfl⟩

end Automaton
end LanguageForms
