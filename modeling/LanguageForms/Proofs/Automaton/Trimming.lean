/-
# Determinising a deterministic automaton

A deterministic automaton is never in more than one state (`Deterministic.after_eq`).
So the sets that the discovery finds have one member each; their texts are the names in
braces, which are all different, so that no primes are needed (`exists_eq_ofState`).

What the discovery makes is the part of the automaton that can be reached, with the
states in the order of the words that lead to them (`Reached`), and with their names in
braces (`subsets_eq_renamed_part`).  The states of a determinised automaton are all
reached, and they are in that order already (`reached_subsets`), so to determinise it
once more does nothing but rename them.
-/
import LanguageForms.Proofs.Automaton.Obtained
import LanguageForms.Proofs.Automaton.Powerset

namespace LanguageForms

/-- The state whose name is that of another one in braces. -/
def State.inBraces (q : State) : State := ⟨"\x7b" ++ q.name ++ "\x7d"⟩

/-- Different states stay different in braces, whatever their names are. -/
theorem State.inBraces_injective : Function.Injective State.inBraces := by
  intro p q h
  have hname : "\x7b" ++ p.name ++ "\x7d" = "\x7b" ++ q.name ++ "\x7d" := congrArg State.name h
  have hopen : "\x7b" ++ p.name = "\x7b" ++ q.name := (String.append_left_inj "\x7d").1 hname
  have hinner : p.name = q.name := (String.append_right_inj "\x7b").1 hopen
  cases p
  cases q
  exact congrArg State.mk hinner

/-- The transition with its states renamed. -/
def Transition.renamed (f : State → State) (t : Transition) : Transition :=
  ⟨f t.source, t.label, f t.target⟩

namespace Automaton

open Words (Earlier)

/-- The automaton with its states renamed. -/
def renamed (f : State → State) (a : Automaton) : Automaton where
  kind := a.kind
  states := .ofList (a.states.toList.map f)
  alphabet := a.alphabet
  transitions := .ofList (a.transitions.toList.map (Transition.renamed f))
  start := f a.start
  accepting := .ofList (a.accepting.toList.map f)

/-- The deterministic automaton that has some states of a given one, in the given order, and the
transitions between them. -/
def part (a : Automaton) (qs : List State) : Automaton where
  kind := .deterministic
  states := .ofList qs
  alphabet := a.alphabet
  transitions := a.transitions.filter fun t => decide (t.source ∈ qs ∧ t.target ∈ qs)
  start := a.start
  accepting := a.accepting.filter fun q => decide (q ∈ qs)

/-- The list has the states that can be reached from the start state, in the order of the words
that lead to them. -/
structure Reached (a : Automaton) (qs : List State) : Prop where
  mem_iff : ∀ q, q ∈ qs ↔ ∃ w, a.Path a.start w q
  ordered : qs.Pairwise fun p q => Earlier (a.Path a.start · p) (a.Path a.start · q)

/-! ### Parts and other names -/

section Parts

variable {a b : Automaton} {f : State → State} {qs : List State}

/-- Automata with the same parts are equal. -/
theorem eq_of_parts (hkind : a.kind = b.kind) (hstates : a.states.toList = b.states.toList)
    (halphabet : a.alphabet = b.alphabet)
    (htransitions : ∀ t, t ∈ a.transitions ↔ t ∈ b.transitions) (hstart : a.start = b.start)
    (haccepting : ∀ q, q ∈ a.accepting ↔ q ∈ b.accepting) : a = b := by
  have hstates := DistinctList.ext_toList hstates
  have htransitions := SortedSet.ext_mem htransitions
  have haccepting := SortedSet.ext_mem haccepting
  cases a
  cases b
  simp_all only

/-- Different names are given in the order of the states. -/
theorem toList_states_renamed (hf : Function.Injective f) :
    (a.renamed f).states.toList = a.states.toList.map f :=
  DistinctList.toList_ofList (a.states.nodup.map hf)

/-- The transitions are the renamed ones of before. -/
theorem mem_transitions_renamed {t : Transition} :
    t ∈ (a.renamed f).transitions ↔ ∃ u ∈ a.transitions, u.renamed f = t :=
  SortedSet.mem_ofList.trans List.mem_map

/-- The accepting states are the renamed ones of before. -/
theorem mem_accepting_renamed {q : State} :
    q ∈ (a.renamed f).accepting ↔ ∃ p ∈ a.accepting, f p = q :=
  SortedSet.mem_ofList.trans List.mem_map

/-- A part has the states that were chosen, in their order. -/
theorem toList_states_part (hqs : qs.Nodup) : (a.part qs).states.toList = qs :=
  DistinctList.toList_ofList hqs

/-- There is only one listing of the states that can be reached. -/
theorem Reached.unique {ps : List State} (hps : a.Reached ps) (hqs : a.Reached qs) : ps = qs :=
  Words.eq_of_pairwise_earlier hps.ordered hqs.ordered fun q =>
    (hps.mem_iff q).trans (hqs.mem_iff q).symm

/-- No state is reached twice. -/
theorem Reached.nodup (h : a.Reached qs) : qs.Nodup := by
  refine h.ordered.imp ?_
  rintro p _ hearlier rfl
  exact hearlier.asymm hearlier

end Parts

variable {a d : Automaton} {p q : State} {s : SortedSet State} {c : Char} {w : List Char}
  {qs : List State}

/-! ### One state at a time -/

/-- A word leads to the set that the automaton is in after it, unless that is empty. -/
theorem leads_iff (ha : a.WellFormed) : a.Leads w s ↔ s = a.after w ∧ s ≠ .empty := by
  constructor
  · exact fun h => ⟨h.eq_after, IsReachable.ne_empty ⟨w, h⟩⟩
  · rintro ⟨rfl, hne⟩
    induction w using List.reverseRecOn with
    | nil => exact .nil
    | append_singleton w c ih =>
      rw [after_concat] at hne ⊢
      exact .snoc (ih (ne_empty_of_advance hne)) (ha.mem_alphabet_of_advance hne) hne

/-- From one state a symbol leads to one state if there is a transition. -/
theorem Deterministic.advance_singleton_iff (hdet : a.Deterministic) :
    a.advance (.singleton p) c = .singleton q ↔ ⟨p, .symbol c, q⟩ ∈ a.transitions := by
  have hmem : ∀ r, r ∈ a.advance (.singleton p) c ↔ ⟨p, .symbol c, r⟩ ∈ a.transitions := fun r => by
    simp [mem_advance_of_noEpsilon hdet.noEpsilon]
  constructor
  · intro heq
    exact (hmem q).1 (heq ▸ SortedSet.mem_singleton.2 rfl)
  · refine fun ht => SortedSet.ext_mem fun r => ?_
    rw [hmem, SortedSet.mem_singleton]
    constructor
    · intro ht'
      have heq := hdet.unique _ ht' _ ht rfl rfl
      exact congrArg Transition.target heq
    · rintro rfl
      exact ht

/-- **A deterministic automaton is never in more than one state.** -/
theorem Deterministic.after_eq (hdet : a.Deterministic) (hq : q ∈ a.after w) :
    a.after w = .singleton q := by
  induction w using List.reverseRecOn generalizing q with
  | nil =>
    refine SortedSet.ext_mem fun p => ?_
    obtain rfl := (mem_initial_of_noEpsilon hdet.noEpsilon).1 hq
    exact (mem_initial_of_noEpsilon hdet.noEpsilon).trans SortedSet.mem_singleton.symm
  | append_singleton w c ih =>
    rw [after_concat, mem_advance_of_noEpsilon hdet.noEpsilon] at hq
    obtain ⟨p, hp, ht⟩ := hq
    rw [after_concat, ih hp, hdet.advance_singleton_iff.2 ht]

/-- To the set with one member lead the words that are spelled by a path to it. -/
theorem leads_singleton_iff (ha : a.WellFormed) (hdet : a.Deterministic) :
    a.Leads w (.singleton q) ↔ a.Path a.start w q := by
  rw [leads_iff ha, ← mem_after_iff]
  constructor
  · rintro ⟨heq, -⟩
    exact heq ▸ SortedSet.mem_singleton.2 rfl
  · intro hq
    exact ⟨(hdet.after_eq hq).symm, SortedSet.ne_empty_iff.2 ⟨q, SortedSet.mem_singleton.2 rfl⟩⟩

/-- The sets that a deterministic automaton can be in have one member. -/
theorem IsReachable.exists_eq_singleton (hdet : a.Deterministic) (hs : a.IsReachable s) :
    ∃ q, s = .singleton q := by
  obtain ⟨q, hq⟩ := SortedSet.ne_empty_iff.1 hs.ne_empty
  obtain ⟨w, hw⟩ := hs
  obtain rfl := hw.eq_after
  exact ⟨q, hdet.after_eq hq⟩

/-! ### The part that can be reached -/

/-- The set with one state as its only member, and the state that stands for it. -/
def Subset.ofState (q : State) : Subset := ⟨.singleton q, q.inBraces⟩

open Subset

/-- Different sets that a deterministic automaton can be in have different texts. -/
theorem Deterministic.eq_of_statesText_eq (hdet : a.Deterministic) {t : SortedSet State}
    (hs : a.IsReachable s) (ht : a.IsReachable t)
    (heq : statesText s.toList = statesText t.toList) : s = t := by
  obtain ⟨p, rfl⟩ := hs.exists_eq_singleton hdet
  obtain ⟨q, rfl⟩ := ht.exists_eq_singleton hdet
  have hbraces : p.inBraces = q.inBraces := congrArg State.mk heq
  rw [State.inBraces_injective hbraces]

/-- **No primes are needed**: the state for a set with one member has its name in braces. -/
theorem exists_eq_ofState (ha : a.WellFormed) (hdet : a.Deterministic) {u : Subset}
    (hu : u ∈ found a) : ∃ q, ofState q = u := by
  obtain ⟨members, state⟩ := u
  have hreach : a.IsReachable members := (table_found a).reachable _ hu
  obtain ⟨q, rfl⟩ := hreach.exists_eq_singleton hdet
  have hstate : state = q.inBraces :=
    state_of_mem_found ha (fun _ _ => hdet.eq_of_statesText_eq) _ hu
  exact ⟨q, by rw [hstate, ofState]⟩

/-- From a deterministic automaton only sets with one member are found. -/
theorem exists_found_eq_map (ha : a.WellFormed) (hdet : a.Deterministic) :
    ∃ qs : List State, found a = qs.map ofState := by
  have hrange : found a ∈ Set.range (List.map ofState) := by
    rw [Set.range_list_map]
    exact fun _ hu => exists_eq_ofState ha hdet hu
  obtain ⟨qs, hqs⟩ := hrange
  exact ⟨qs, hqs.symm⟩

/-- The found states are those that can be reached, in order. -/
theorem reached_of_found_eq (ha : a.WellFormed) (hdet : a.Deterministic)
    (hqs : found a = qs.map ofState) : a.Reached qs := by
  have hmembers : (found a).map Subset.members = qs.map SortedSet.singleton := by
    rw [hqs, List.map_map]
    rfl
  constructor
  case mem_iff =>
    intro q
    have hinj : Function.Injective (SortedSet.singleton : State → SortedSet State) :=
      fun p q heq => SortedSet.mem_singleton.1 (heq ▸ SortedSet.mem_singleton.2 rfl)
    rw [← List.mem_map_of_injective hinj, ← hmembers, mem_map_members_found ha]
    exact exists_congr fun w => leads_singleton_iff ha hdet
  case ordered =>
    have hordered := pairwise_earlier_found ha
    rw [hmembers, List.pairwise_map] at hordered
    simpa only [leads_singleton_iff ha hdet] using hordered

/-- The transitions lead between found states as those of the given automaton do. -/
theorem mem_transitions_of_found_eq (ha : a.WellFormed) (hdet : a.Deterministic)
    (hqs : found a = qs.map ofState) {t : Transition} :
    t ∈ a.subsets.1.transitions ↔
      ∃ u ∈ a.transitions, (u.source ∈ qs ∧ u.target ∈ qs) ∧ u.renamed State.inBraces = t := by
  rw [mem_transitions_subsets ha, hqs]
  constructor
  · rintro ⟨s, hs, c, -, u, hu, hmembers, rfl⟩
    obtain ⟨p, hp, rfl⟩ := List.mem_map.1 hs
    obtain ⟨q, hq, rfl⟩ := List.mem_map.1 hu
    exact ⟨_, hdet.advance_singleton_iff.1 hmembers.symm, ⟨hp, hq⟩, rfl⟩
  · rintro ⟨⟨p, l, q⟩, ht, ⟨hp, hq⟩, rfl⟩
    cases l with
    | epsilon => exact absurd rfl (hdet.noEpsilon _ ht)
    | symbol c =>
      exact ⟨ofState p, List.mem_map_of_mem hp, c, ha.symbol _ ht c rfl, ofState q,
        List.mem_map_of_mem hq, (hdet.advance_singleton_iff.2 ht).symm, rfl⟩

/-- The result accepts in the states whose only member is an accepting one. -/
theorem mem_accepting_of_found_eq (hqs : found a = qs.map ofState) :
    q ∈ a.subsets.1.accepting ↔ ∃ p, (p ∈ a.accepting ∧ p ∈ qs) ∧ p.inBraces = q := by
  have hacc : ∀ p, hasAccepting a (ofState p) = true ↔ p ∈ a.accepting := fun p => by
    simp [hasAccepting, ofState, SortedSet.any_eq_true, isAccepting]
  rw [mem_accepting_subsets, hqs]
  constructor
  · rintro ⟨s, hs, hs', rfl⟩
    obtain ⟨p, hp, rfl⟩ := List.mem_map.1 hs
    exact ⟨p, ⟨(hacc p).1 hs', hp⟩, rfl⟩
  · rintro ⟨p, ⟨hp, hqs⟩, rfl⟩
    exact ⟨ofState p, List.mem_map_of_mem hqs, (hacc p).2 hp, rfl⟩

/-- The result begins with the start state in braces. -/
theorem start_of_found_eq (hdet : a.Deterministic) (hqs : found a = qs.map ofState) :
    a.subsets.1.start = a.start.inBraces := by
  obtain ⟨q, -, hq⟩ := List.mem_map.1 (hqs ▸ first_mem_found a)
  have hmembers : a.initial = .singleton q := congrArg Subset.members hq.symm
  have hstart : a.start ∈ a.initial := (mem_initial_of_noEpsilon hdet.noEpsilon).2 rfl
  rw [hmembers, SortedSet.mem_singleton] at hstart
  rw [start_subsets, ← hq, hstart]
  rfl

/-- **The discovery trims and renames** a deterministic automaton. -/
theorem subsets_eq_renamed_part (ha : a.WellFormed) (hdet : a.Deterministic) :
    ∃ qs, a.Reached qs ∧ a.subsets.1 = (a.part qs).renamed State.inBraces := by
  obtain ⟨qs, hqs⟩ := exists_found_eq_map ha hdet
  have hreached := reached_of_found_eq ha hdet hqs
  refine ⟨qs, hreached, eq_of_parts (isPowerset_subsets ha).kind ?_ (alphabet_subsets a) ?_
    (start_of_found_eq hdet hqs) ?_⟩
  · rw [toList_states_subsets, toList_states_renamed State.inBraces_injective,
      toList_states_part hreached.nodup, hqs, List.map_map]
    rfl
  · intro t
    rw [mem_transitions_of_found_eq ha hdet hqs, mem_transitions_renamed]
    simp [part, and_assoc]
  · intro q
    rw [mem_accepting_of_found_eq hqs, mem_accepting_renamed]
    simp [part]

/-! ### Determinising once more -/

/-- The states of a determinised automaton can all be reached, and they are in order. -/
theorem reached_subsets (ha : a.WellFormed) : a.subsets.1.Reached a.subsets.1.states.toList := by
  have hpath : ∀ s ∈ found a, ∀ w,
      a.subsets.1.Path a.subsets.1.start w s.state ↔ a.Leads w s.members := by
    intro s hs w
    rw [← mem_after_iff, mem_after_subsets ha, leads_iff ha]
    constructor
    · rintro ⟨t, ht, hmembers, hstate⟩
      obtain rfl := (table_found a).eq_of_state ht hs hstate
      exact ⟨hmembers, ((table_found a).reachable t ht).ne_empty⟩
    · rintro ⟨hmembers, -⟩
      exact ⟨s, hs, hmembers, rfl⟩
  rw [toList_states_subsets]
  constructor
  case mem_iff =>
    intro q
    rw [List.mem_map]
    constructor
    · rintro ⟨s, hs, rfl⟩
      obtain ⟨w, hw⟩ := (table_found a).reachable s hs
      exact ⟨w, (hpath s hs w).2 hw⟩
    · rintro ⟨w, hw⟩
      obtain ⟨s, hs, -, hstate⟩ := (mem_after_subsets ha).1 (mem_after_iff.2 hw)
      exact ⟨s, hs, hstate⟩
  case ordered =>
    have hordered := List.pairwise_map.1 (pairwise_earlier_found ha)
    refine List.pairwise_map.2 (hordered.imp_of_mem fun {s t} hs ht hearlier => ?_)
    simpa only [Earlier, hpath s hs, hpath t ht] using hearlier

/-- The part with all states is the automaton. -/
theorem part_states (hd : d.WellFormed) (hkind : d.kind = .deterministic) :
    d.part d.states.toList = d := by
  have hstates : (d.part d.states.toList).states.toList = d.states.toList :=
    toList_states_part d.states.nodup
  refine eq_of_parts hkind.symm hstates rfl (fun t => ?_) rfl fun q => ?_
  · rw [part, SortedSet.mem_filter, decide_eq_true_eq]
    exact and_iff_left_of_imp fun ht => ⟨hd.source t ht, hd.target t ht⟩
  · rw [part, SortedSet.mem_filter, decide_eq_true_eq]
    exact and_iff_left_of_imp fun hq => hd.accepting q hq

/-- **To determinise once more** only renames. -/
theorem subsets_subsets (ha : a.WellFormed) :
    a.subsets.1.subsets.1 = a.subsets.1.renamed State.inBraces := by
  have hd := wellFormed_subsets ha
  obtain ⟨qs, hqs, heq⟩ := subsets_eq_renamed_part hd (deterministic_subsets ha)
  obtain rfl := hqs.unique (reached_subsets ha)
  rw [heq, part_states hd (isPowerset_subsets ha).kind]

/-! ### Determinising a widened automaton -/

/-- A widened automaton has the same paths. -/
theorem path_asNondeterministic : a.asNondeterministic.Path p w q ↔ a.Path p w q :=
  ⟨Path.mono fun _ ht => ht, Path.mono fun _ ht => ht⟩

/-- Widening does not change which states are reached. -/
theorem Reached.of_asNondeterministic (h : a.asNondeterministic.Reached qs) : a.Reached qs where
  mem_iff q := (h.mem_iff q).trans (exists_congr fun _ => path_asNondeterministic)
  ordered := by
    have hordered : qs.Pairwise fun p q => Earlier (a.asNondeterministic.Path a.start · p)
        (a.asNondeterministic.Path a.start · q) := h.ordered
    simpa only [path_asNondeterministic] using hordered

/-- Widening does not change what is determinised. -/
theorem subsets_asNondeterministic (ha : a.WellFormed) (hdet : a.Deterministic) :
    a.asNondeterministic.subsets.1 = a.subsets.1 := by
  obtain ⟨qs, hqs, heq⟩ := subsets_eq_renamed_part ha hdet
  obtain ⟨qs', hqs', heq'⟩ := subsets_eq_renamed_part (a := a.asNondeterministic)
    (wellFormed_asNondeterministic ha) ⟨hdet.noEpsilon, hdet.unique⟩
  obtain rfl := hqs.unique hqs'.of_asNondeterministic
  rw [heq, heq']
  rfl

/-- **Determinising a deterministic automaton only trims and renames.**  It gives the part that can
be reached, with the states in the order of the words that lead to them and with their names in
braces; so it does if the automaton is widened before.  A determinised automaton only has its states
renamed, since all of them are reached and in that order. -/
theorem determinise_trims :
    (∀ a : Automaton, a.checkDeterministic = .ok () → ∃ qs d trace n story trace',
      a.Reached qs ∧ a.determinise = .ok (d, trace) ∧ a.widen = .ok (n, story) ∧
        n.determinise = .ok (d, trace') ∧ d = (a.part qs).renamed State.inBraces ∧
        d.states.toList = qs.map State.inBraces) ∧
    (∀ a : Automaton, a.check = .ok () → ∃ d trace e trace',
      a.determinise = .ok (d, trace) ∧ d.determinise = .ok (e, trace') ∧
        e = d.renamed State.inBraces ∧ e.states.toList = d.states.toList.map State.inBraces) ∧
    Function.Injective State.inBraces := by
  refine ⟨fun a h => ?_, fun a h => ?_, State.inBraces_injective⟩
  · obtain ⟨ha, hdet⟩ := checkDeterministic_eq_ok_iff.1 h
    obtain ⟨qs, hqs, heq⟩ := subsets_eq_renamed_part ha hdet
    have hstates : a.subsets.1.states.toList = qs.map State.inBraces := by
      rw [heq, toList_states_renamed State.inBraces_injective, toList_states_part hqs.nodup]
    have hwidened : a.asNondeterministic.determinise =
        .ok (a.subsets.1, a.asNondeterministic.subsets.2) :=
      determinise_eq_ok_iff.2 ⟨wellFormed_asNondeterministic ha,
        Prod.ext (subsets_asNondeterministic ha hdet) rfl⟩
    exact ⟨qs, _, _, _, _, _, hqs, determinise_eq_ok_iff.2 ⟨ha, rfl⟩,
      widen_eq_ok_iff.2 ⟨⟨ha, hdet⟩, rfl, rfl⟩, hwidened, heq, hstates⟩
  · have ha : a.WellFormed := check_eq_ok_iff.1 h
    have hstates : a.subsets.1.subsets.1.states.toList =
        a.subsets.1.states.toList.map State.inBraces := by
      rw [subsets_subsets ha, toList_states_renamed State.inBraces_injective]
    exact ⟨_, _, _, _, determinise_eq_ok_iff.2 ⟨ha, rfl⟩,
      determinise_eq_ok_iff.2 ⟨wellFormed_subsets ha, rfl⟩, subsets_subsets ha, hstates⟩

/-- States whose names have braces, commas and primes, one of them out of reach. -/
def bracketed : Automaton where
  kind := .nondeterministic
  states := .ofList [⟨"q'"⟩, ⟨"\x7bp\x7d"⟩, ⟨"p"⟩, ⟨"p, q"⟩]
  alphabet := .ofList ['0', '1']
  transitions := .ofList [⟨⟨"p"⟩, .symbol '0', ⟨"p, q"⟩⟩, ⟨⟨"p"⟩, .symbol '1', ⟨"\x7bp\x7d"⟩⟩,
    ⟨⟨"\x7bp\x7d"⟩, .symbol '0', ⟨"p"⟩⟩, ⟨⟨"q'"⟩, .symbol '0', ⟨"p"⟩⟩]
  start := ⟨"p"⟩
  accepting := .ofList [⟨"\x7bp\x7d"⟩, ⟨"q'"⟩]

/-- The hypotheses of `determinise_trims` are satisfiable. -/
theorem determinise_trims_bracketed :
    (bracketed.checkDeterministic = .ok () ∧ ∃ qs d trace n story trace',
      bracketed.Reached qs ∧ bracketed.determinise = .ok (d, trace) ∧
        bracketed.widen = .ok (n, story) ∧ n.determinise = .ok (d, trace') ∧
        d = (bracketed.part qs).renamed State.inBraces ∧
        d.states.toList = qs.map State.inBraces) ∧
    lookalikes.check = .ok () ∧ ∃ d trace e trace',
      lookalikes.determinise = .ok (d, trace) ∧ d.determinise = .ok (e, trace') ∧
        e = d.renamed State.inBraces ∧ e.states.toList = d.states.toList.map State.inBraces :=
  ⟨⟨rfl, determinise_trims.1 bracketed rfl⟩, rfl, determinise_trims.2.1 lookalikes rfl⟩

end Automaton
end LanguageForms
