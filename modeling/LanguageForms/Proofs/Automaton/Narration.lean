/-
# What the steps of the discovery show

The trace of a determinisation shows what every beginning of the list of events
makes of an automaton without states (`narrate_eq`).  The events come in an order
in which a set is created before anything links to it (`unfolds_events`), so each of
these automata has the states that its transitions connect; the rest it has from
the automaton that all events make, and so its parts fit together and it is
deterministic (`wellFormed_replay`, `deterministic_replay`).

Every set is treated once, with every symbol once, so no two links add the same
transition (`nodup_links_events`).  That makes one event for every state and every
transition of the deterministic automaton (`length_events`).
-/
import LanguageForms.Automaton.Obtained
import LanguageForms.Proofs.Automaton.Determinisation

namespace LanguageForms

/-- The set of the values of a list without repetition has as many members. -/
theorem SortedSet.size_ofList {α : Type} [Sortable α] {l : List α} (h : l.Nodup) :
    (SortedSet.ofList l).size = l.length :=
  size_eq_length h fun _ => SortedSet.mem_ofList

namespace Automaton

/-- With fewer transitions an automaton stays deterministic. -/
theorem Deterministic.mono {a b : Automaton} (h : b.Deterministic)
    (hsub : ∀ t ∈ a.transitions, t ∈ b.transitions) : a.Deterministic where
  noEpsilon t ht := h.noEpsilon t (hsub t ht)
  unique s hs t ht := h.unique s (hsub s hs) t (hsub t ht)

namespace Subset

variable {a d : Automaton} {known queue : List Subset} {source s t : Subset} {c : Char}
  {cs : List Char} {es fs gs : List Event} {direct : SortedSet State}

/-! ### The order of the events -/

/-- The events come in an order in which only sets are linked that are known or have been
created. -/
inductive Unfolds : List Subset → List Event → Prop where
  | nil (known : List Subset) : Unfolds known []
  | create {known : List Subset} {s : Subset} {origin : Origin} {es : List Event} :
      Unfolds (known ++ [s]) es → Unfolds known (.create s origin :: es)
  | link {known : List Subset} {s t : Subset} {c : Char} {direct : SortedSet State}
      {es : List Event} :
      s ∈ known → t ∈ known → Unfolds known es → Unfolds known (.link s.state c direct t :: es)

/-- Events that unfold after others make an unfolding together with them. -/
theorem Unfolds.append (h : Unfolds known es) (h' : Unfolds (known ++ created es) fs) :
    Unfolds known (es ++ fs) := by
  induction h with
  | nil known =>
    rw [show created [] = [] from rfl, List.append_nil] at h'
    exact h'
  | @create known s origin es _ ih =>
    refine .create (ih ?_)
    rw [List.append_assoc]
    exact h'
  | link hs ht _ ih => exact .link hs ht (ih h')

/-- A beginning of the events is in order if all of them are. -/
theorem Unfolds.of_append (h : Unfolds known (es ++ fs)) : Unfolds known es := by
  induction es generalizing known with
  | nil => exact .nil known
  | cons e es ih =>
    cases h with
    | create hrest => exact .create (ih hrest)
    | link hs ht hrest => exact .link hs ht (ih hrest)

/-- The ends of a link are among the sets that are known or created. -/
theorem Unfolds.mem_of_link {p : State} (h : Unfolds known es)
    (hlink : .link p c direct t ∈ es) :
    (∃ s ∈ known ++ created es, s.state = p) ∧ t ∈ known ++ created es := by
  induction h with
  | nil known => exact absurd hlink List.not_mem_nil
  | @create known s origin es _ ih =>
    rcases List.mem_cons.1 hlink with heq | hlink
    · cases heq
    · rw [show created (.create s origin :: es) = [s] ++ created es from rfl, ← List.append_assoc]
      exact ih hlink
  | @link known s u d direct' es hs hu _ ih =>
    rcases List.mem_cons.1 hlink with heq | hlink
    · cases heq
      exact ⟨⟨s, List.mem_append_left _ hs, rfl⟩, List.mem_append_left _ hu⟩
    · exact ih hlink

/-- The events of a treated subset unfold if the subset is known. -/
theorem unfolds_eventsFrom (hsource : source ∈ known) :
    Unfolds known (eventsFrom a source cs known).1 := by
  fun_induction eventsFrom a source cs known with
  | case1 known => exact .nil known
  | case2 c cs known direct target hempty ih => exact ih hsource
  | case3 c cs known direct target hempty s hfind rest ih =>
    exact .link hsource (List.mem_of_find?_eq_some hfind) (ih hsource)
  | case4 c cs known direct target hempty hfind s rest ih =>
    have hsource : source ∈ known ++ [s] := List.mem_append_left _ hsource
    have hs : s ∈ known ++ [s] := List.mem_append_right _ (List.mem_singleton.2 rfl)
    exact .create (.link hsource hs (ih hsource))

/-- The events of a discovery unfold if what is in the queue is known. -/
theorem unfolds_explore (a : Automaton) (n : Nat) (hqueue : ∀ s ∈ queue, s ∈ known) :
    Unfolds known (explore a n known queue) := by
  induction n generalizing known queue with
  | zero => exact .nil known
  | succ n ih =>
    cases queue with
    | nil => exact .nil known
    | cons s queue =>
      refine (unfolds_eventsFrom (hqueue s (List.mem_cons_self ..))).append ?_
      rw [created_eventsFrom]
      exact ih (queue_subset hqueue)

/-- **A set is created before anything links to it.** -/
theorem unfolds_events (a : Automaton) : Unfolds [] (events a) :=
  .create (unfolds_explore a _ fun _ hs => hs)

/-- The links among some events are the transitions that they add. -/
theorem mem_links {t : Transition} :
    t ∈ links es ↔ ∃ p c direct u, .link p c direct u ∈ es ∧ t = ⟨p, .symbol c, u.state⟩ := by
  rw [links, List.mem_filterMap]
  constructor
  · rintro ⟨e, he, ht⟩
    cases e with
    | create => cases ht
    | link p c direct u => exact ⟨p, c, direct, u, he, (Option.some.inj ht).symm⟩
  · rintro ⟨p, c, direct, u, he, rfl⟩
    exact ⟨_, he, rfl⟩

/-- What is linked has been created. -/
theorem Unfolds.ends_created {t : Transition} (h : Unfolds [] es) (ht : t ∈ links es) :
    (∃ s ∈ created es, s.state = t.source) ∧ ∃ s ∈ created es, s.state = t.target := by
  obtain ⟨p, c, direct, u, he, rfl⟩ := mem_links.1 ht
  obtain ⟨hsource, htarget⟩ := h.mem_of_link he
  exact ⟨hsource, u, htarget, rfl⟩

/-! ### What a beginning of the events makes -/

/-- The links among events come in the order of the events. -/
theorem links_append (es fs : List Event) : links (es ++ fs) = links es ++ links fs :=
  List.filterMap_append

/-- A beginning of the events that is not empty creates the first set. -/
theorem first_mem_created (h : events a = fs ++ gs) (hne : fs ≠ []) : first a ∈ created fs := by
  cases fs with
  | nil => exact absurd rfl hne
  | cons e fs =>
    obtain ⟨rfl, -⟩ := List.cons.inj h
    exact List.mem_cons_self ..

/-- A beginning of the events makes no other transitions than all of them. -/
theorem mem_transitions_of_replay (h : events a = fs ++ gs) {t : Transition}
    (ht : t ∈ (replay a (blank a) fs).transitions) : t ∈ a.subsets.1.transitions := by
  refine mem_transitions_replay.2 ?_
  rw [h, links_append]
  exact List.mem_append_left _ (mem_transitions_replay.1 ht)

/-- **The parts fit together** from the first event on. -/
theorem wellFormed_replay (ha : a.WellFormed) (h : events a = fs ++ gs) (hne : fs ≠ []) :
    (replay a (blank a) fs).WellFormed := by
  have hunfolds : Unfolds [] (fs ++ gs) := h ▸ unfolds_events a
  have hends := fun t ht =>
    hunfolds.of_append.ends_created (t := t) (mem_transitions_replay (a := a).1 ht)
  constructor
  case start =>
    refine mem_states_replay.2 ⟨first a, first_mem_created h hne, ?_⟩
    rw [replay_eq]
    rfl
  case accepting =>
    intro q hq
    obtain ⟨s, hs, -, hstate⟩ := mem_accepting_replay.1 hq
    exact mem_states_replay.2 ⟨s, hs, hstate⟩
  case source => exact fun t ht => mem_states_replay.2 (hends t ht).1
  case target => exact fun t ht => mem_states_replay.2 (hends t ht).2
  case symbol =>
    intro t ht c hc
    have hmem := (wellFormed_subsets ha).symbol t (mem_transitions_of_replay h ht) c hc
    rw [alphabet_subsets] at hmem
    rw [replay_eq]
    exact hmem

/-- Nothing becomes ambiguous on the way. -/
theorem deterministic_replay (ha : a.WellFormed) (h : events a = fs ++ gs) :
    (replay a (blank a) fs).Deterministic :=
  (deterministic_subsets ha).mono fun _ ht => mem_transitions_of_replay h ht

/-! ### The number of the events -/

/-- Every event creates a set or adds a transition. -/
theorem length_eq_created_add_links (es : List Event) :
    es.length = (created es).length + (links es).length := by
  induction es with
  | nil => rfl
  | cons e es ih =>
    cases e with
    | create s origin =>
      show es.length + 1 = ((created es).length + 1) + (links es).length
      omega
    | link p c direct t =>
      show es.length + 1 = (created es).length + ((links es).length + 1)
      omega

/-- What is linked while a subset is treated begins at the state of the subset. -/
theorem source_of_mem_links_eventsFrom {t : Transition}
    (ht : t ∈ links (eventsFrom a source cs known).1) : t.source = source.state := by
  obtain ⟨p, c, direct, u, he, rfl⟩ := mem_links.1 ht
  obtain ⟨s, hs, d, -, v, -, heq, -⟩ := (linked_eventsFrom a source cs known).sound _ he rfl
  cases heq
  rw [List.mem_singleton.1 hs]

/-- On the way through some symbols each of them is read by one link at most. -/
theorem labels_links_eventsFrom (a : Automaton) (source : Subset) (cs : List Char)
    (known : List Subset) :
    ((links (eventsFrom a source cs known).1).map Transition.label).Sublist
      (cs.map Label.symbol) := by
  fun_induction eventsFrom a source cs known with
  | case1 => exact .slnil
  | case2 c cs known direct target hempty ih => exact .cons _ ih
  | case3 c cs known direct target hempty s hfind rest ih => exact .cons_cons _ ih
  | case4 c cs known direct target hempty hfind s rest ih => exact .cons_cons _ ih

/-- No link is made twice while a subset is treated. -/
theorem nodup_links_eventsFrom (a : Automaton) (source : Subset) (known : List Subset) :
    (links (eventsFrom a source a.alphabet.toList known).1).Nodup := by
  have hsymbols : (a.alphabet.toList.map Label.symbol).Nodup :=
    a.alphabet.nodup.map fun _ _ => Label.symbol.inj
  exact .of_map _ (hsymbols.sublist (labels_links_eventsFrom a source _ known))

/-- What is linked on the way through the queue starts from sets in the queue, or from such as are
created on the way. -/
theorem source_of_mem_links_explore {n : Nat} {t : Transition}
    (ht : t ∈ links (explore a n known queue)) :
    t.source ∈ (queue ++ created (explore a n known queue)).map Subset.state := by
  induction n generalizing known queue with
  | zero => exact absurd ht List.not_mem_nil
  | succ n ih =>
    cases queue with
    | nil => exact absurd ht List.not_mem_nil
    | cons s queue =>
      rw [explore, links_append] at ht
      rw [explore, created_append, created_eventsFrom, List.cons_append, ← List.append_assoc]
      rcases List.mem_append.1 ht with ht | ht
      · rw [source_of_mem_links_eventsFrom ht]
        exact List.mem_cons_self ..
      · exact List.mem_cons_of_mem _ (ih ht)

/-- On the way through a queue of different sets no transition is added twice. -/
theorem nodup_links_explore {n : Nat}
    (h : ((queue ++ created (explore a n known queue)).map Subset.state).Nodup) :
    (links (explore a n known queue)).Nodup := by
  induction n generalizing known queue with
  | zero => exact .nil
  | succ n ih =>
    cases queue with
    | nil => exact .nil
    | cons s queue =>
      rw [explore, created_append, created_eventsFrom, List.cons_append, ← List.append_assoc,
        List.map_cons, List.nodup_cons] at h
      rw [explore, links_append]
      refine List.nodup_append.2 ⟨nodup_links_eventsFrom a s known, ih h.2, fun t ht u hu heq => ?_⟩
      subst heq
      -- the link starts from the treated set, and from one that is treated later
      have hlater := source_of_mem_links_explore hu
      rw [source_of_mem_links_eventsFrom ht] at hlater
      exact h.1 hlater

/-- **No transition is added twice.** -/
theorem nodup_links_events (a : Automaton) : (links (events a)).Nodup :=
  nodup_links_explore (table_found a).states

/-- The states come in the order in which their sets are found. -/
theorem toList_states_subsets (a : Automaton) :
    a.subsets.1.states.toList = (found a).map Subset.state := by
  have hnodup : (DistinctList.empty.toList ++ (found a).map Subset.state).Nodup :=
    (table_found a).states
  show (replay a (blank a) (events a)).states.toList = _
  rw [replay_eq]
  exact DistinctList.toList_insertAll_of_nodup hnodup

/-- The result has a state for every found set. -/
theorem size_subsets (a : Automaton) : a.subsets.1.size = (found a).length := by
  rw [size, DistinctList.size, toList_states_subsets, List.length_map]

/-- The result has a transition for every link. -/
theorem transitionCount_subsets (a : Automaton) :
    a.subsets.1.transitionCount = (links (events a)).length := by
  show (replay a (blank a) (events a)).transitionCount = _
  rw [replay_eq]
  exact SortedSet.size_ofList (nodup_links_events a)

/-- **There is one event for every state and every transition** of the deterministic
automaton. -/
theorem length_events (a : Automaton) :
    (events a).length = a.subsets.1.size + a.subsets.1.transitionCount := by
  rw [length_eq_created_add_links, size_subsets, transitionCount_subsets, found]

/-! ### The steps -/

/-- **Step by step** the trace shows what one more event makes. -/
theorem narrate_eq (a d : Automaton) (es : List Event) :
    narrate a d es = es.mapIdx fun k e =>
      .showing e.label (e.story a) (.automaton (replay a d (es.take (k + 1)))) := by
  induction es generalizing d with
  | nil => rfl
  | cons e es ih =>
    rw [narrate, ih, List.mapIdx_cons]
    rfl

/-- What the trace shows is made by a beginning of the events. -/
theorem exists_of_shows_subsets (h : a.subsets.2.Shows d) :
    ∃ fs gs, events a = fs ++ gs ∧ fs ≠ [] ∧ d = replay a (blank a) fs := by
  obtain ⟨e, he, hd⟩ := h.exists_step
  rcases List.mem_append.1 he with he | he
  · rw [narrate_eq] at he
    obtain ⟨k, hk, rfl⟩ := List.mem_mapIdx.1 he
    refine ⟨(events a).take (k + 1), (events a).drop (k + 1),
      (List.take_append_drop ..).symm, ?_, Trace.Entry.eq_of_showing hd⟩
    exact List.ne_nil_of_length_pos (by rw [List.length_take]; omega)
  · rw [List.mem_singleton.1 he] at hd
    exact ⟨events a, [], (List.append_nil _).symm, List.cons_ne_nil _ _,
      Trace.Entry.eq_of_showing hd⟩

end Subset
end Automaton
end LanguageForms
