/-
# The deterministic automaton accepts the same words

What the events make of an automaton is written down at once in `replay_eq`: the
states are those of the sets created, and the transitions are the links.  With
what the discovery finds this says that the states stand one to one for the found
sets (`mem_states_subsets`), and that a transition leads from the state of a set to
the state of the set to which the symbol leads (`mem_transitions_subsets`).

A word then leads to the state of the set that the given automaton is in after it,
and to no state if that set is empty (`mem_after_subsets`).  This is shown by
induction on the word from its end; an accepting state is one whose set has an
accepting member, so the accepted words are the same
(`determinise_preserves_language`).
-/
import LanguageForms.Proofs.Automaton.Discovery

namespace LanguageForms
namespace Automaton

variable {a : Automaton} {p q : State} {c : Char} {w : List Char}

/-! ### Automata without transitions that read nothing -/

/-- Without empty moves a path that reads nothing stays where it is. -/
theorem Path.eq_of_noEpsilon (ha : ∀ t ∈ a.transitions, t.label ≠ .epsilon)
    (h : a.Path p [] q) : q = p := by
  generalize hw : ([] : List Char) = w at h
  cases h with
  | nil => rfl
  | @cons _ r _ l w ht _ =>
    obtain ⟨hl, -⟩ := List.append_eq_nil_iff.1 hw.symm
    cases l with
    | symbol c => cases hl
    | epsilon => exact absurd rfl (ha _ ht)

/-- Without empty moves the automaton begins in its start state only. -/
theorem mem_initial_of_noEpsilon (ha : ∀ t ∈ a.transitions, t.label ≠ .epsilon) :
    q ∈ a.initial ↔ q = a.start := by
  rw [initial, mem_closure_iff]
  constructor
  · rintro ⟨p, hp, hpath⟩
    rw [hpath.eq_of_noEpsilon ha, List.mem_singleton.1 hp]
  · rintro rfl
    exact ⟨a.start, List.mem_singleton.2 rfl, .nil _⟩

/-- Without empty moves a symbol leads to the targets of its transitions only. -/
theorem mem_advance_of_noEpsilon (ha : ∀ t ∈ a.transitions, t.label ≠ .epsilon)
    {s : SortedSet State} :
    q ∈ a.advance s c ↔ ∃ p ∈ s, ⟨p, .symbol c, q⟩ ∈ a.transitions := by
  rw [mem_advance_iff]
  constructor
  · rintro ⟨p, hp, r, ht, hpath⟩
    rw [hpath.eq_of_noEpsilon ha]
    exact ⟨p, hp, ht⟩
  · rintro ⟨p, hp, ht⟩
    exact ⟨p, hp, q, ht, .nil q⟩

namespace Subset

/-! ### What the events make -/

/-- The transition that an event adds, if it adds one. -/
def Event.transition? : Event → Option Transition
  | create .. => none
  | link p c _ t => some ⟨p, .symbol c, t.state⟩

/-- Whether an accepting state is among the members. -/
def hasAccepting (a : Automaton) (s : Subset) : Bool := s.members.any a.isAccepting

/-- **What events make of an automaton**: they add the states of the sets that they create, and
the transitions of their links. -/
theorem replay_eq (a d : Automaton) (es : List Event) :
    replay a d es =
      { d with
        states := d.states.insertAll ((created es).map Subset.state)
        transitions := d.transitions.insertAll (es.filterMap Event.transition?)
        accepting := d.accepting.insertAll
          (((created es).filter (hasAccepting a)).map Subset.state) } := by
  induction es generalizing d with
  | nil => rfl
  | cons e es ih =>
    show replay a (e.apply a d) es = _
    rw [ih]
    cases e with
    | create s origin =>
      have hcreated : created (.create s origin :: es) = s :: created es := rfl
      rw [hcreated, List.filter_cons]
      by_cases hs : s.members.any a.isAccepting = true
      · have hacc : hasAccepting a s = true := hs
        simp only [Event.apply, hs, hacc, if_true, List.map_cons]
        rfl
      · have hacc : ¬ hasAccepting a s = true := hs
        simp only [Event.apply, hs, hacc, List.map_cons]
        rfl
    | link p c direct t => rfl

/-- The transitions that some events add, in order. -/
def links (es : List Event) : List Transition := es.filterMap Event.transition?

variable {es : List Event}

/-- The states that some events build stand for the sets that they create. -/
theorem mem_states_replay :
    q ∈ (replay a (blank a) es).states ↔ ∃ s ∈ created es, s.state = q := by
  rw [replay_eq]
  show q ∈ DistinctList.empty.insertAll ((created es).map Subset.state) ↔ _
  rw [DistinctList.mem_insertAll, List.mem_map]
  exact or_iff_right List.not_mem_nil

/-- The accepting states that some events build stand for created sets with an accepting member. -/
theorem mem_accepting_replay :
    q ∈ (replay a (blank a) es).accepting ↔
      ∃ s ∈ created es, hasAccepting a s = true ∧ s.state = q := by
  rw [replay_eq]
  show q ∈ SortedSet.empty.insertAll (((created es).filter (hasAccepting a)).map Subset.state) ↔ _
  rw [SortedSet.mem_insertAll, List.mem_map]
  simp only [SortedSet.not_mem_empty, false_or, List.mem_filter, and_assoc]

/-- The transitions that some events build are the links among them. -/
theorem mem_transitions_replay {t : Transition} :
    t ∈ (replay a (blank a) es).transitions ↔ t ∈ links es := by
  rw [replay_eq]
  exact SortedSet.mem_insertAll.trans (or_iff_right SortedSet.not_mem_empty)

end Subset

open Subset

/-! ### The parts of the deterministic automaton -/

/-- The states of the result stand for the found sets. -/
theorem mem_states_subsets : q ∈ a.subsets.1.states ↔ ∃ s ∈ found a, s.state = q :=
  mem_states_replay

/-- The result accepts in the states of the found sets with an accepting member. -/
theorem mem_accepting_subsets :
    q ∈ a.subsets.1.accepting ↔ ∃ s ∈ found a, hasAccepting a s = true ∧ s.state = q :=
  mem_accepting_replay

/-- The result begins in the state of the first set. -/
theorem start_subsets (a : Automaton) : a.subsets.1.start = (first a).state :=
  congrArg Automaton.start (replay_eq a (blank a) (events a))

/-- The result keeps the alphabet. -/
theorem alphabet_subsets (a : Automaton) : a.subsets.1.alphabet = a.alphabet := by
  have heq := congrArg Automaton.alphabet (replay_eq a (blank a) (events a))
  exact heq

/-- **The transitions** lead from the state of a found set to the state of the set to which the
symbol leads. -/
theorem mem_transitions_subsets (ha : a.WellFormed) {t : Transition} :
    t ∈ a.subsets.1.transitions ↔ ∃ s ∈ found a, ∃ c ∈ a.alphabet, ∃ u ∈ found a,
      u.members = a.advance s.members c ∧ t = ⟨s.state, .symbol c, u.state⟩ := by
  have hlinks : t ∈ a.subsets.1.transitions ↔ t ∈ links (events a) := mem_transitions_replay
  rw [hlinks, links, List.mem_filterMap]
  constructor
  · rintro ⟨e, he, ht⟩
    have hlink : e.created? = none := by
      cases e with
      | create => cases ht
      | link => rfl
    obtain ⟨s, hs, c, hc, u, hu, rfl, hmembers⟩ := (linked_events ha).sound e he hlink
    exact ⟨s, hs, c, hc, u, hu, hmembers, (Option.some.inj ht).symm⟩
  · rintro ⟨s, hs, c, hc, u, hu, hmembers, rfl⟩
    have hne : a.advance s.members c ≠ .empty :=
      hmembers ▸ ((table_found a).reachable u hu).ne_empty
    obtain ⟨u', hu', hmembers', he⟩ := (linked_events ha).complete s hs c hc hne
    obtain rfl := (table_found a).eq_of_members hu hu' (hmembers.trans hmembers'.symm)
    exact ⟨_, he, rfl⟩

/-- The parts of the result fit together. -/
theorem wellFormed_subsets (ha : a.WellFormed) : a.subsets.1.WellFormed where
  start := by
    rw [start_subsets]
    exact mem_states_subsets.2 ⟨first a, first_mem_found a, rfl⟩
  accepting q hq := by
    obtain ⟨s, hs, -, hstate⟩ := mem_accepting_subsets.1 hq
    exact mem_states_subsets.2 ⟨s, hs, hstate⟩
  source t ht := by
    obtain ⟨s, hs, c, hc, u, hu, -, rfl⟩ := (mem_transitions_subsets ha).1 ht
    exact mem_states_subsets.2 ⟨s, hs, rfl⟩
  symbol t ht c hc := by
    obtain ⟨s, hs, d, hd, u, hu, -, rfl⟩ := (mem_transitions_subsets ha).1 ht
    obtain rfl := Label.symbol.inj hc
    rw [alphabet_subsets]
    exact hd
  target t ht := by
    obtain ⟨s, hs, c, hc, u, hu, -, rfl⟩ := (mem_transitions_subsets ha).1 ht
    exact mem_states_subsets.2 ⟨u, hu, rfl⟩

/-- The result is deterministic. -/
theorem deterministic_subsets (ha : a.WellFormed) : a.subsets.1.Deterministic where
  noEpsilon t ht := by
    obtain ⟨s, hs, c, hc, u, hu, -, rfl⟩ := (mem_transitions_subsets ha).1 ht
    exact Label.noConfusion
  unique t ht t' ht' hsource hlabel := by
    obtain ⟨s, hs, c, hc, u, hu, hmembers, rfl⟩ := (mem_transitions_subsets ha).1 ht
    obtain ⟨s', hs', c', hc', u', hu', hmembers', rfl⟩ := (mem_transitions_subsets ha).1 ht'
    obtain rfl := (table_found a).eq_of_state hs hs' hsource
    obtain rfl := Label.symbol.inj hlabel
    obtain rfl := (table_found a).eq_of_members hu hu' (hmembers.trans hmembers'.symm)
    rfl

/-! ### The run of the deterministic automaton -/

/-- **After a word** the deterministic automaton is in the state of the set that the given
automaton is in. -/
theorem mem_after_subsets (ha : a.WellFormed) :
    q ∈ a.subsets.1.after w ↔ ∃ s ∈ found a, s.members = a.after w ∧ s.state = q := by
  have hno := (deterministic_subsets ha).noEpsilon
  induction w using List.reverseRecOn generalizing q with
  | nil =>
    show q ∈ a.subsets.1.initial ↔ _
    rw [mem_initial_of_noEpsilon hno, start_subsets]
    constructor
    · rintro rfl
      exact ⟨first a, first_mem_found a, rfl, rfl⟩
    · rintro ⟨s, hs, hmembers, rfl⟩
      rw [(table_found a).eq_of_members hs (first_mem_found a) hmembers]
  | append_singleton w c ih =>
    rw [after_concat, after_concat, mem_advance_of_noEpsilon hno]
    constructor
    · rintro ⟨p, hp, ht⟩
      obtain ⟨s, hs, hmembers, rfl⟩ := ih.1 hp
      obtain ⟨s', hs', c', hc', u, hu, hu', heq⟩ := (mem_transitions_subsets ha).1 ht
      obtain ⟨hstate, hlabel, rfl⟩ := Transition.mk.inj heq
      obtain rfl := (table_found a).eq_of_state hs hs' hstate
      obtain rfl := Label.symbol.inj hlabel
      exact ⟨u, hu, hmembers ▸ hu', rfl⟩
    · rintro ⟨u, hu, hmembers, rfl⟩
      have hne : a.advance (a.after w) c ≠ .empty :=
        hmembers ▸ ((table_found a).reachable u hu).ne_empty
      obtain ⟨s, hs, hs'⟩ := exists_mem_found ha (ne_empty_of_advance hne)
      refine ⟨s.state, ih.2 ⟨s, hs, hs', rfl⟩, (mem_transitions_subsets ha).2 ?_⟩
      exact ⟨s, hs, c, ha.mem_alphabet_of_advance hne, u, hu, hs' ▸ hmembers, rfl⟩

/-- **The result accepts the same words.** -/
theorem accepts_subsets (ha : a.WellFormed) (w : List Char) :
    a.subsets.1.accepts w = a.accepts w := by
  rw [Bool.eq_iff_iff, accepts_eq_true_iff]
  constructor
  · rintro ⟨q, hq, hw⟩
    obtain ⟨s, hs, hacc, rfl⟩ := mem_accepting_subsets.1 hq
    obtain ⟨s', hs', hmembers, hstate⟩ := (mem_after_subsets ha).1 hw
    obtain rfl := (table_found a).eq_of_state hs' hs hstate
    rw [Automaton.accepts, ← hmembers]
    exact hacc
  · intro hw
    obtain ⟨q, -, hq⟩ := accepts_eq_true_iff.1 hw
    obtain ⟨s, hs, hmembers⟩ := exists_mem_found ha (SortedSet.ne_empty_iff.2 ⟨q, hq⟩)
    refine ⟨s.state, mem_accepting_subsets.2 ⟨s, hs, ?_, rfl⟩,
      (mem_after_subsets ha).2 ⟨s, hs, hmembers, rfl⟩⟩
    rw [hasAccepting, hmembers]
    exact hw

/-- **The subset construction preserves the language.**  An automaton whose parts fit together
has a deterministic automaton, it is one indeed, and it accepts the same words. -/
theorem determinise_preserves_language (a : Automaton) (h : a.check = .ok ()) :
    ∃ d trace, a.determinise = .ok (d, trace) ∧ d.checkDeterministic = .ok () ∧
      ∀ w, d.accepts w = a.accepts w := by
  have ha : a.WellFormed := check_eq_ok_iff.1 h
  refine ⟨a.subsets.1, a.subsets.2, ?_, ?_, accepts_subsets ha⟩
  · rw [determinise, defect?_eq_none_iff.2 ha]
  · exact checkDeterministic_eq_ok_iff.2 ⟨wellFormed_subsets ha, deterministic_subsets ha⟩

/-- A state named `a, b` beside states named `a` and `b`: the sets of the one and of the others
read alike, and a loop that reads nothing leads through both. -/
def lookalikes : Automaton where
  kind := .nondeterministic
  states := .ofList [⟨"s"⟩, ⟨"a"⟩, ⟨"b"⟩, ⟨"a, b"⟩]
  alphabet := .ofList ['0', '1']
  transitions := .ofList [⟨⟨"s"⟩, .symbol '0', ⟨"a, b"⟩⟩, ⟨⟨"s"⟩, .symbol '1', ⟨"a"⟩⟩,
    ⟨⟨"a"⟩, .epsilon, ⟨"b"⟩⟩, ⟨⟨"b"⟩, .epsilon, ⟨"a"⟩⟩, ⟨⟨"b"⟩, .symbol '0', ⟨"a, b"⟩⟩]
  start := ⟨"s"⟩
  accepting := .ofList [⟨"a, b"⟩]

/-- The hypothesis of `determinise_preserves_language` is satisfiable. -/
theorem determinise_lookalikes :
    lookalikes.check = .ok () ∧ ∃ d trace, lookalikes.determinise = .ok (d, trace) ∧
      d.checkDeterministic = .ok () ∧ ∀ w, d.accepts w = lookalikes.accepts w :=
  ⟨rfl, determinise_preserves_language lookalikes rfl⟩

end Automaton
end LanguageForms
