/-
# What the discovery of subsets finds

The known subsets form a `Table`: every one of them is a set that the automaton
can be in, and no two have the same members or the same state.  The way through
the symbols from one subset keeps the table (`table_eventsFrom`), links only to
known subsets and links on every symbol that leads anywhere.

There are fewer known subsets than sets of states (`Table.length_lt`), and every
one is treated once.  So the fuel of `explore` is enough, as long as it counts
with the subsets treated so far at least the sets of states: when it runs out,
the queue is empty (`explored_explore`).
-/
import Mathlib.Data.Finset.Powerset
import LanguageForms.Automaton.Reachable
import LanguageForms.Automaton.Subset
import LanguageForms.Proofs.Automaton.FreshName
import LanguageForms.Proofs.Automaton.Run

namespace LanguageForms
namespace Automaton

variable {a : Automaton} {s : SortedSet State} {c : Char}

/-! ### Sets that an automaton can be in -/

/-- A symbol that leads anywhere belongs to the alphabet. -/
theorem WellFormed.mem_alphabet_of_advance (h : a.WellFormed) (hc : a.advance s c ≠ .empty) :
    c ∈ a.alphabet := by
  obtain ⟨q, hq⟩ := SortedSet.ne_empty_iff.1 hc
  obtain ⟨p, -, r, ht, -⟩ := mem_advance_iff.1 hq
  exact h.symbol _ ht c rfl

/-- A set that leads anywhere has members. -/
theorem ne_empty_of_advance (hc : a.advance s c ≠ .empty) : s ≠ .empty := by
  obtain ⟨q, hq⟩ := SortedSet.ne_empty_iff.1 hc
  obtain ⟨p, hp, -⟩ := mem_advance_iff.1 hq
  exact SortedSet.ne_empty_iff.2 ⟨p, hp⟩

/-- A symbol leads from a reachable set to a reachable set, if it leads anywhere. -/
theorem IsReachable.advance (h : a.IsReachable s) (hc : c ∈ a.alphabet)
    (hne : a.advance s c ≠ .empty) : a.IsReachable (a.advance s c) := by
  obtain ⟨w, hw⟩ := h
  exact ⟨w ++ [c], .snoc hw hc hne⟩

/-- A reachable set has a member. -/
theorem IsReachable.ne_empty (h : a.IsReachable s) : s ≠ .empty := by
  obtain ⟨w, hw⟩ := h
  cases hw with
  | nil =>
    have hstart : a.start ∈ a.initial := mem_closure_of_mem (List.mem_singleton.2 rfl)
    exact SortedSet.ne_empty_iff.2 ⟨a.start, hstart⟩
  | snoc _ _ hne => exact hne

/-- The states that empty moves lead to are declared if those are from which they start. -/
theorem WellFormed.mem_states_of_mem_closure (h : a.WellFormed) {qs : List State} {q : State}
    (hqs : ∀ q ∈ qs, q ∈ a.states) (hq : q ∈ a.closure qs) : q ∈ a.states :=
  closure_least hqs (fun _ _ ht _ => h.target _ ht) q hq

/-- The members of a reachable set are states of the automaton. -/
theorem IsReachable.mem_states (hs : a.IsReachable s) (h : a.WellFormed) {q : State}
    (hq : q ∈ s) : q ∈ a.states := by
  obtain ⟨w, hw⟩ := hs
  cases hw with
  | nil =>
    refine h.mem_states_of_mem_closure (fun p hp => ?_) hq
    rw [List.mem_singleton.1 hp]
    exact h.start
  | snoc _ _ _ =>
    refine h.mem_states_of_mem_closure (fun p hp => ?_) hq
    obtain ⟨r, -, ht⟩ := mem_move.1 hp
    exact h.target _ ht

namespace Subset

/-! ### Tables of known subsets -/

/-- Known subsets: sets that the automaton can be in, each once and each with its own state. -/
structure Table (a : Automaton) (known : List Subset) : Prop where
  reachable : ∀ s ∈ known, a.IsReachable s.members
  members : (known.map Subset.members).Nodup
  states : (known.map Subset.state).Nodup

variable {known queue : List Subset} {source s t : Subset}

/-- Known subsets with the same members are the same. -/
theorem Table.eq_of_members (h : Table a known) (hs : s ∈ known) (ht : t ∈ known)
    (heq : s.members = t.members) : s = t :=
  List.inj_on_of_nodup_map h.members hs ht heq

/-- Known subsets with the same state are the same. -/
theorem Table.eq_of_state (h : Table a known) (hs : s ∈ known) (ht : t ∈ known)
    (heq : s.state = t.state) : s = t :=
  List.inj_on_of_nodup_map h.states hs ht heq

/-- A set that is not known yet gets a state that is not in use. -/
theorem Table.concat_named (h : Table a known) {members : SortedSet State}
    (hreach : a.IsReachable members) (hnew : ¬ members ∈ known.map Subset.members) :
    Table a (known ++ [named known members]) where
  reachable := by
    intro s hs
    rcases List.mem_append.1 hs with hs | hs
    · exact h.reachable s hs
    · rw [List.mem_singleton.1 hs]
      exact hreach
  members := by
    rw [List.map_append, List.map_singleton, ← List.concat_eq_append]
    exact h.members.concat hnew
  states := by
    rw [List.map_append, List.map_singleton, ← List.concat_eq_append]
    exact h.states.concat (freshState_not_mem _ _)

/-- **There are fewer known subsets than sets of states**, since none of them is empty. -/
theorem Table.length_lt (h : Table a known) (ha : a.WellFormed) :
    known.length < Nat.pow 2 a.size := by
  let f : Subset → Finset State := fun s => s.members.toList.toFinset
  have hmem : ∀ s q, q ∈ f s ↔ q ∈ s.members := fun s q => List.mem_toFinset
  have hnodup : (known.map f).Nodup := by
    refine List.Nodup.map_on (fun s hs t ht heq => ?_) (List.Nodup.of_map _ h.members)
    refine h.eq_of_members hs ht (SortedSet.ext_mem fun q => ?_)
    rw [← hmem, ← hmem, heq]
  have hsub : (known.map f).toFinset ⊆ a.states.toList.toFinset.powerset.erase ∅ := by
    intro x hx
    obtain ⟨s, hs, rfl⟩ := List.mem_map.1 (List.mem_toFinset.1 hx)
    obtain ⟨q, hq⟩ := SortedSet.ne_empty_iff.1 (h.reachable s hs).ne_empty
    refine Finset.mem_erase.2 ⟨Finset.ne_empty_of_mem ((hmem s q).2 hq), ?_⟩
    refine Finset.mem_powerset.2 fun p hp => List.mem_toFinset.2 ?_
    exact (h.reachable s hs).mem_states ha ((hmem s p).1 hp)
  have hcard := Finset.card_le_card hsub
  rw [List.toFinset_card_of_nodup hnodup, List.length_map,
    Finset.card_erase_of_mem (Finset.empty_mem_powerset _), Finset.card_powerset,
    List.toFinset_card_of_nodup a.states.nodup] at hcard
  have hpos : 0 < 2 ^ a.states.toList.length := Nat.two_pow_pos _
  show known.length < 2 ^ a.states.toList.length
  omega

/-! ### The way through the symbols -/

/-- The set that an event creates, if it creates one. -/
def Event.created? : Event → Option Subset
  | create s _ => some s
  | link .. => none

/-- The sets that some events create, in order. -/
def created (es : List Event) : List Subset := es.filterMap Event.created?

/-- The sets that events create come in the order of the events. -/
theorem created_append (es fs : List Event) : created (es ++ fs) = created es ++ created fs :=
  List.filterMap_append

/-- The event that a symbol leads from one subset to another. -/
def linkOf (a : Automaton) (s : Subset) (c : Char) (t : Subset) : Event :=
  .link s.state c (a.move s.members.toList c) t

/-- The events link treated subsets to known ones by some symbols, and they link just as the
automaton advances. -/
structure Linked (a : Automaton) (cs : List Char) (known treated : List Subset)
    (es : List Event) : Prop where
  sound : ∀ e ∈ es, e.created? = none → ∃ s ∈ treated, ∃ c ∈ cs, ∃ t ∈ known,
    e = linkOf a s c t ∧ t.members = a.advance s.members c
  complete : ∀ s ∈ treated, ∀ c ∈ cs, a.advance s.members c ≠ .empty →
    ∃ t ∈ known, t.members = a.advance s.members c ∧ linkOf a s c t ∈ es

variable {cs : List Char} {treated : List Subset} {es fs : List Event}

/-- Events that link to known subsets also do if more subsets are known. -/
theorem Linked.mono {known' : List Subset} (h : Linked a cs known treated es)
    (hsub : ∀ s ∈ known, s ∈ known') : Linked a cs known' treated es where
  sound e he hlink := by
    obtain ⟨s, hs, c, hc, t, ht, heq, hmembers⟩ := h.sound e he hlink
    exact ⟨s, hs, c, hc, t, hsub t ht, heq, hmembers⟩
  complete s hs c hc hne := by
    obtain ⟨t, ht, hmembers, he⟩ := h.complete s hs c hc hne
    exact ⟨t, hsub t ht, hmembers, he⟩

/-- The events of two lists of treated subsets link both lists together. -/
theorem Linked.append {treated' : List Subset} (h : Linked a cs known treated es)
    (h' : Linked a cs known treated' fs) : Linked a cs known (treated ++ treated') (es ++ fs) where
  sound e he hlink := by
    rcases List.mem_append.1 he with he | he
    · obtain ⟨s, hs, hrest⟩ := h.sound e he hlink
      exact ⟨s, List.mem_append_left _ hs, hrest⟩
    · obtain ⟨s, hs, hrest⟩ := h'.sound e he hlink
      exact ⟨s, List.mem_append_right _ hs, hrest⟩
  complete s hs c hc hne := by
    rcases List.mem_append.1 hs with hs | hs
    · obtain ⟨t, ht, hmembers, he⟩ := h.complete s hs c hc hne
      exact ⟨t, ht, hmembers, List.mem_append_left _ he⟩
    · obtain ⟨t, ht, hmembers, he⟩ := h'.complete s hs c hc hne
      exact ⟨t, ht, hmembers, List.mem_append_right _ he⟩

/-- Creating a set does not link anything. -/
theorem Linked.create_cons {origin : Origin} (h : Linked a cs known treated es) :
    Linked a cs known treated (.create s origin :: es) where
  sound e he hlink := by
    rcases List.mem_cons.1 he with rfl | he
    · cases hlink
    · exact h.sound e he hlink
  complete t ht c hc hne := by
    obtain ⟨u, hu, hmembers, he⟩ := h.complete t ht c hc hne
    exact ⟨u, hu, hmembers, List.mem_cons_of_mem _ he⟩

/-- A symbol that leads nowhere needs no link. -/
theorem Linked.skip_symbol (h : Linked a cs known [source] es)
    (hempty : a.advance source.members c = .empty) : Linked a (c :: cs) known [source] es where
  sound e he hlink := by
    obtain ⟨s, hs, d, hd, hrest⟩ := h.sound e he hlink
    exact ⟨s, hs, d, List.mem_cons_of_mem _ hd, hrest⟩
  complete s hs d hd hne := by
    rcases List.mem_cons.1 hd with rfl | hd
    · rw [List.mem_singleton.1 hs] at hne
      exact absurd hempty hne
    · exact h.complete s hs d hd hne

/-- A symbol needs one link. -/
theorem Linked.link_symbol (h : Linked a cs known [source] es) (ht : t ∈ known)
    (hmembers : t.members = a.advance source.members c) :
    Linked a (c :: cs) known [source] (linkOf a source c t :: es) where
  sound e he hlink := by
    rcases List.mem_cons.1 he with rfl | he
    · exact ⟨source, List.mem_singleton.2 rfl, c, List.mem_cons_self .., t, ht, rfl, hmembers⟩
    · obtain ⟨s, hs, d, hd, hrest⟩ := h.sound e he hlink
      exact ⟨s, hs, d, List.mem_cons_of_mem _ hd, hrest⟩
  complete s hs d hd hne := by
    rcases List.mem_cons.1 hd with rfl | hd
    · rw [List.mem_singleton.1 hs]
      exact ⟨t, ht, hmembers, List.mem_cons_self ..⟩
    · obtain ⟨u, hu, hmembers', he⟩ := h.complete s hs d hd hne
      exact ⟨u, hu, hmembers', List.mem_cons_of_mem _ he⟩

/-- The sets that are created while a subset is treated are those that become known. -/
theorem created_eventsFrom (a : Automaton) (source : Subset) (cs : List Char)
    (known : List Subset) :
    created (eventsFrom a source cs known).1 = (eventsFrom a source cs known).2 := by
  fun_induction eventsFrom a source cs known with
  | case1 => rfl
  | case2 c cs known direct target hempty ih => exact ih
  | case3 c cs known direct target hempty s hfind rest ih => exact ih
  | case4 c cs known direct target hempty hfind s rest ih => exact congrArg (s :: ·) ih

/-- A set that is not found in the list is not known. -/
theorem not_mem_of_find?_eq_none {members : SortedSet State}
    (h : known.find? (fun s => decide (s.members = members)) = none) :
    ¬ members ∈ known.map Subset.members := by
  intro hmem
  obtain ⟨t, ht, heq⟩ := List.mem_map.1 hmem
  exact List.find?_eq_none.1 h t ht (decide_eq_true heq)

/-- **The table is kept** on the way through symbols of the alphabet from a set that the
automaton can be in. -/
theorem table_eventsFrom (h : Table a known) (hsource : a.IsReachable source.members)
    (hcs : ∀ c ∈ cs, c ∈ a.alphabet) : Table a (known ++ (eventsFrom a source cs known).2) := by
  fun_induction eventsFrom a source cs known with
  | case1 known => rwa [List.append_nil]
  | case2 c cs known direct target hempty ih =>
    exact ih h fun d hd => hcs d (List.mem_cons_of_mem _ hd)
  | case3 c cs known direct target hempty s hfind rest ih =>
    exact ih h fun d hd => hcs d (List.mem_cons_of_mem _ hd)
  | case4 c cs known direct target hempty hfind s rest ih =>
    have hne : a.advance source.members c ≠ .empty := fun heq =>
      hempty (SortedSet.isEmpty_iff.2 heq)
    have hreach := hsource.advance (hcs c (List.mem_cons_self ..)) hne
    have hnew : ¬ target ∈ known.map Subset.members := not_mem_of_find?_eq_none hfind
    have hrest := ih (h.concat_named hreach hnew) fun d hd => hcs d (List.mem_cons_of_mem _ hd)
    rwa [List.append_assoc] at hrest

/-- The way through some symbols links their source as the automaton advances from it. -/
theorem linked_eventsFrom (a : Automaton) (source : Subset) (cs : List Char)
    (known : List Subset) :
    Linked a cs (known ++ (eventsFrom a source cs known).2) [source]
      (eventsFrom a source cs known).1 := by
  fun_induction eventsFrom a source cs known with
  | case1 known => exact ⟨fun _ he => absurd he List.not_mem_nil,
      fun _ _ _ hc => absurd hc List.not_mem_nil⟩
  | case2 c cs known direct target hempty ih =>
    exact ih.skip_symbol (SortedSet.isEmpty_iff.1 hempty)
  | case3 c cs known direct target hempty s hfind rest ih =>
    have hs : s ∈ known := List.mem_of_find?_eq_some hfind
    have htest := List.find?_some hfind
    have hmembers : s.members = target := of_decide_eq_true htest
    exact ih.link_symbol (List.mem_append_left _ hs) hmembers
  | case4 c cs known direct target hempty hfind s rest ih =>
    rw [List.append_assoc] at ih
    have hs : s ∈ known ++ s :: rest.2 := List.mem_append_right _ (List.mem_cons_self ..)
    exact (ih.link_symbol hs rfl).create_cons

/-! ### The way through the queue -/

/-- What is in the queue stays known when its first subset has been treated. -/
theorem queue_subset {more : List Subset} (h : ∀ t ∈ s :: queue, t ∈ known) :
    ∀ t ∈ queue ++ more, t ∈ known ++ more := by
  intro t ht
  rcases List.mem_append.1 ht with ht | ht
  · exact List.mem_append_left _ (h t (List.mem_cons_of_mem _ ht))
  · exact List.mem_append_right _ ht

/-- The table is kept on the way through the queue. -/
theorem table_explore (n : Nat) (h : Table a known) (hqueue : ∀ s ∈ queue, s ∈ known) :
    Table a (known ++ created (explore a n known queue)) := by
  induction n generalizing known queue with
  | zero =>
    rw [explore]
    rwa [show created [] = [] from rfl, List.append_nil]
  | succ n ih =>
    cases queue with
    | nil =>
      rw [explore]
      rwa [show created [] = [] from rfl, List.append_nil]
    | cons s queue =>
      have hs := h.reachable s (hqueue s (List.mem_cons_self ..))
      have hfound : Table a (known ++ (eventsFrom a s a.alphabet.toList known).2) :=
        table_eventsFrom h hs fun _ hc => hc
      rw [explore, created_append, created_eventsFrom, ← List.append_assoc]
      exact ih hfound (queue_subset hqueue)

/-- **Every subset is treated.**  If the fuel and the known subsets that are not in the queue
are together as many as the sets of states, then the queue is empty when the fuel runs out,
and the links are complete for the queue and for all that is created. -/
theorem linked_explore (ha : a.WellFormed) {n : Nat} (h : Table a known)
    (hqueue : ∀ s ∈ queue, s ∈ known)
    (hfuel : Nat.pow 2 a.size + queue.length ≤ n + known.length) :
    Linked a a.alphabet.toList (known ++ created (explore a n known queue))
      (queue ++ created (explore a n known queue)) (explore a n known queue) := by
  induction n generalizing known queue with
  | zero =>
    have hlt := h.length_lt ha
    omega
  | succ n ih =>
    cases queue with
    | nil =>
      rw [explore]
      exact ⟨fun _ he => absurd he List.not_mem_nil, fun _ hs => absurd hs List.not_mem_nil⟩
    | cons s queue =>
      have hs := h.reachable s (hqueue s (List.mem_cons_self ..))
      have hfound : Table a (known ++ (eventsFrom a s a.alphabet.toList known).2) :=
        table_eventsFrom h hs fun _ hc => hc
      have hhere := linked_eventsFrom a s a.alphabet.toList known
      rw [explore, created_append, created_eventsFrom, List.cons_append, ← List.append_assoc,
        ← List.append_assoc]
      refine (hhere.mono fun t ht => List.mem_append_left _ ht).append
        (ih hfound (queue_subset hqueue) ?_)
      rw [List.length_append, List.length_append]
      rw [List.length_cons] at hfuel
      omega

/-! ### All that is found -/

/-- The subsets that are found, in the order in which they are created. -/
def found (a : Automaton) : List Subset := created (events a)

/-- Found are the first set and what is created from it on. -/
theorem found_eq (a : Automaton) :
    found a = [first a] ++ created (explore a (Nat.pow 2 a.size) [first a] [first a]) := rfl

/-- The first set is found. -/
theorem first_mem_found (a : Automaton) : first a ∈ found a := List.mem_cons_self ..

/-- The first set alone makes a table. -/
theorem table_first (a : Automaton) : Table a [first a] where
  reachable s hs := by
    rw [List.mem_singleton.1 hs]
    exact ⟨[], .nil⟩
  members := List.nodup_singleton _
  states := List.nodup_singleton _

/-- **What is found** are sets that the automaton can be in, each once and each with its own
state. -/
theorem table_found (a : Automaton) : Table a (found a) := by
  rw [found_eq]
  exact table_explore _ (table_first a) fun _ hs => hs

/-- **The links** are those by which the automaton advances from one found set to another. -/
theorem linked_events (ha : a.WellFormed) :
    Linked a a.alphabet.toList (found a) (found a) (events a) := by
  rw [found_eq, events]
  have hfuel : Nat.pow 2 a.size + [first a].length ≤ Nat.pow 2 a.size + [first a].length :=
    Nat.le_refl _
  exact (linked_explore ha (table_first a) (fun _ hs => hs) hfuel).create_cons

/-- Every set that the automaton is in after a word is found, unless it is empty. -/
theorem exists_mem_found (ha : a.WellFormed) {w : List Char} (hne : a.after w ≠ .empty) :
    ∃ s ∈ found a, s.members = a.after w := by
  induction w using List.reverseRecOn with
  | nil => exact ⟨first a, first_mem_found a, rfl⟩
  | append_singleton w c ih =>
    rw [after_concat] at hne ⊢
    obtain ⟨s, hs, hmembers⟩ := ih (ne_empty_of_advance hne)
    rw [← hmembers] at hne ⊢
    have hc := ha.mem_alphabet_of_advance hne
    obtain ⟨t, ht, htmembers, -⟩ := (linked_events ha).complete s hs c hc hne
    exact ⟨t, ht, htmembers⟩

end Subset
end Automaton
end LanguageForms
