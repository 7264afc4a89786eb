/-
# The deterministic automaton is the powerset automaton

What the discovery makes of an automaton is determined, but for the names of the states,
by the sets that the automaton can be in: they stand one to one for the states and come
in the order of the words that lead to them, a symbol leads from the state of a set to
the state of the set to which it leads, and a state is accepting if its set has an
accepting member.  `IsPowerset` says all of this, and
`determinise_isPowerset` that it holds.

The names are found in the table of the discovery (`stateOf`); they are different for
different sets, even if these have the same text.
-/
import LanguageForms.Proofs.Automaton.Narration
import LanguageForms.Proofs.Automaton.SetNames

namespace LanguageForms
namespace Automaton

open Words (Earlier)

variable {a : Automaton} {s : SortedSet State} {w : List Char}

/-- The first automaton has states that stand for the given sets, which are those that the second
one can be in, and runs as the second one does.  The sets come in the order of the words that lead
to them. -/
structure IsPowerset (d a : Automaton) (sets : List (SortedSet State))
    (name : SortedSet State → State) : Prop where
  kind : d.kind = .deterministic
  alphabet : d.alphabet = a.alphabet
  mem_sets : ∀ s, s ∈ sets ↔ a.IsReachable s
  ordered : sets.Pairwise fun s t => Earlier (a.Leads · s) (a.Leads · t)
  states : d.states.toList = sets.map name
  injective : ∀ s ∈ sets, ∀ t ∈ sets, name s = name t → s = t
  text : ∀ s ∈ sets, ∃ n, (name s).name = statesText s.toList ++ primes n
  start : d.start = name a.initial
  transitions : ∀ t, t ∈ d.transitions ↔ ∃ s ∈ sets, ∃ c ∈ a.alphabet,
    a.advance s c ≠ .empty ∧ t = ⟨name s, .symbol c, name (a.advance s c)⟩
  accepting : ∀ q, q ∈ d.accepting ↔ ∃ s ∈ sets, q = name s ∧ ∃ p ∈ s, p ∈ a.accepting

namespace Subset

/-- The state that stands for a set, if the set is found. -/
def stateOf (a : Automaton) (members : SortedSet State) : State :=
  (((found a).find? fun s => decide (s.members = members)).getD (first a)).state

/-- A found set is named by its own state. -/
theorem stateOf_members {s : Subset} (hs : s ∈ found a) : stateOf a s.members = s.state := by
  rw [stateOf]
  cases hfind : (found a).find? fun t => decide (t.members = s.members) with
  | none =>
    have hno := List.find?_eq_none.1 hfind s hs
    simp at hno
  | some t =>
    have ht : t ∈ found a := List.mem_of_find?_eq_some hfind
    have htest := List.find?_some hfind
    have hmembers : t.members = s.members := of_decide_eq_true htest
    rw [(table_found a).eq_of_members ht hs hmembers]
    rfl

/-- What is said of the sets in the table is said of the found subsets and their states. -/
theorem exists_mem_members_found {P : SortedSet State → State → Prop} :
    (∃ s ∈ (found a).map Subset.members, P s (stateOf a s)) ↔
      ∃ s ∈ found a, P s.members s.state := by
  constructor
  · rintro ⟨m, hm, h⟩
    obtain ⟨s, hs, rfl⟩ := List.mem_map.1 hm
    rw [stateOf_members hs] at h
    exact ⟨s, hs, h⟩
  · rintro ⟨s, hs, h⟩
    refine ⟨s.members, List.mem_map_of_mem hs, ?_⟩
    rwa [stateOf_members hs]

end Subset

open Subset

/-- **What the events make is the powerset automaton.** -/
theorem isPowerset_subsets (ha : a.WellFormed) :
    a.subsets.1.IsPowerset a ((found a).map Subset.members) (stateOf a) where
  kind := congrArg Automaton.kind (replay_eq a (blank a) (events a))
  alphabet := alphabet_subsets a
  mem_sets _ := mem_map_members_found ha
  ordered := pairwise_earlier_found ha
  states := by
    rw [toList_states_subsets, List.map_map]
    exact List.map_congr_left fun s hs => (stateOf_members hs).symm
  injective := by
    intro m hm n hn heq
    obtain ⟨s, hs, rfl⟩ := List.mem_map.1 hm
    obtain ⟨t, ht, rfl⟩ := List.mem_map.1 hn
    rw [stateOf_members hs, stateOf_members ht] at heq
    rw [(table_found a).eq_of_state hs ht heq]
  text := by
    intro m hm
    obtain ⟨s, hs, rfl⟩ := List.mem_map.1 hm
    rw [stateOf_members hs]
    exact name_of_mem_found ha s hs
  start := by
    rw [start_subsets]
    exact (stateOf_members (first_mem_found a)).symm
  transitions t := by
    rw [mem_transitions_subsets ha, exists_mem_members_found (P := fun s q => ∃ c ∈ a.alphabet,
      a.advance s c ≠ .empty ∧ t = ⟨q, .symbol c, stateOf a (a.advance s c)⟩)]
    refine exists_congr fun s => and_congr_right fun hs => exists_congr fun c =>
      and_congr_right fun hc => ?_
    constructor
    · rintro ⟨u, hu, hmembers, rfl⟩
      refine ⟨hmembers ▸ ((table_found a).reachable u hu).ne_empty, ?_⟩
      rw [← hmembers, stateOf_members hu]
    · rintro ⟨hne, rfl⟩
      obtain ⟨u, hu, hmembers, -⟩ := (linked_events ha).complete s hs c hc hne
      exact ⟨u, hu, hmembers, by rw [← hmembers, stateOf_members hu]⟩
  accepting q := by
    rw [mem_accepting_subsets, exists_mem_members_found (P := fun s q' => q = q' ∧
      ∃ p ∈ s, p ∈ a.accepting)]
    refine exists_congr fun s => and_congr_right fun _ => ?_
    rw [and_comm, eq_comm, hasAccepting, SortedSet.any_eq_true]
    simp only [isAccepting, decide_eq_true_eq]

/-- **The deterministic automaton is the powerset automaton** of the sets that the automaton can be
in.  The queue of the discovery comes to its end, there is one state for each of these sets, with a
name of its own, and there are fewer of them than sets of states. -/
theorem determinise_isPowerset (a : Automaton) (h : a.check = .ok ()) :
    ∃ d trace sets name, a.determinise = .ok (d, trace) ∧ d.IsPowerset a sets name ∧
      d.size ≤ Nat.pow 2 a.size - 1 ∧
      ∃ es, Exhausts a [first a] [first a] es ∧
        d = replay a (blank a) (.create (first a) .initial :: es) := by
  have ha : a.WellFormed := check_eq_ok_iff.1 h
  have hok : a.determinise = .ok (a.subsets.1, a.subsets.2) := by
    rw [determinise, defect?_eq_none_iff.2 ha]
  have hsize : a.subsets.1.size ≤ Nat.pow 2 a.size - 1 := by
    have hlt := (table_found a).length_lt ha
    rw [size_subsets]
    omega
  exact ⟨a.subsets.1, a.subsets.2, _, _, hok, isPowerset_subsets ha, hsize, _, exhausts_events ha,
    rfl⟩

/-- The hypothesis of `determinise_isPowerset` is satisfiable by an automaton with two sets that
have the same text. -/
theorem determinise_isPowerset_lookalikes :
    lookalikes.check = .ok () ∧ ∃ d trace sets name,
      lookalikes.determinise = .ok (d, trace) ∧ d.IsPowerset lookalikes sets name ∧
        d.size ≤ Nat.pow 2 lookalikes.size - 1 ∧
        ∃ es, Exhausts lookalikes [first lookalikes] [first lookalikes] es ∧
          d = replay lookalikes (blank lookalikes)
            (.create (first lookalikes) .initial :: es) :=
  ⟨rfl, determinise_isPowerset lookalikes rfl⟩

end Automaton
end LanguageForms
