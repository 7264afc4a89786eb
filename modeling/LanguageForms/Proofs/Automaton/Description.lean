/-
# Descriptions are taken exactly if they fit

A description keeps account of the declarations that were made (`Gathers`): each one
adds to one part of it and leaves the others alone, so after a list of declarations
it holds what they say together (`gathers_ofList`).

The automaton that is put together from it is checked.  What the check asks of the
automaton is what `Declarations.Fit` asks of the declarations
(`wellFormed_assemble_iff`), for what is inferred never lacks anything; and a defect
that the check finds is one of the declarations (`misfit_of_defect?`).
-/
import LanguageForms.Automaton.Declared
import LanguageForms.Proofs.Automaton.Ambiguity
import LanguageForms.Proofs.Automaton.Obtained

namespace LanguageForms
namespace Automaton

variable {l : List Declaration} {start : State} {kind : Kind} {a : Automaton} {d : Description}
  {e : Defect} {q : State} {c : Char} {t : Transition}

namespace Declarations

/-! ### What a description holds -/

/-- The description holds what the declarations say together. -/
structure Gathers (l : List Declaration) (d : Description) : Prop where
  hasStates : d.states.isSome = true ↔ HasStates l
  states : d.states.getD .empty = .ofList (declaredStates l)
  hasAlphabet : d.alphabet.isSome = true ↔ HasAlphabet l
  alphabet : d.alphabet.getD .empty = .ofList (declaredSymbols l)
  edges : d.edges = addedEdges l
  accepting : d.accepting = markedStates l

/-- The empty description holds what no declarations say. -/
theorem gathers_empty : Gathers [] .empty where
  hasStates := by simp [Description.empty, HasStates]
  states := rfl
  hasAlphabet := by simp [Description.empty, HasAlphabet]
  alphabet := rfl
  edges := rfl
  accepting := rfl

/-- The states are declared if they were before, or are by the last declaration. -/
theorem hasStates_concat {x : Declaration} :
    HasStates (l ++ [x]) ↔ HasStates l ∨ ∃ qs, x = .states qs := by
  simp only [HasStates, List.mem_append, List.mem_singleton, exists_or, eq_comm]

/-- The alphabet is declared if it was before, or is by the last declaration. -/
theorem hasAlphabet_concat {x : Declaration} :
    HasAlphabet (l ++ [x]) ↔ HasAlphabet l ∨ ∃ cs, x = .alphabet cs := by
  simp only [HasAlphabet, List.mem_append, List.mem_singleton, exists_or, eq_comm]

/-- One more declaration adds to its part, and leaves the others alone. -/
theorem Gathers.declare (h : Gathers l d) (x : Declaration) :
    Gathers (l ++ [x]) (d.declare x) where
  hasStates := by
    rw [hasStates_concat, ← h.hasStates]
    cases x <;> simp [Description.declare]
  states := by
    have hstates := h.states
    cases x <;> simp [Description.declare, declaredStates, Declaration.declaredStates, hstates,
      DistinctList.ofList, DistinctList.insertAll_append]
  hasAlphabet := by
    rw [hasAlphabet_concat, ← h.hasAlphabet]
    cases x <;> simp [Description.declare]
  alphabet := by
    have halphabet := h.alphabet
    cases x <;> simp [Description.declare, declaredSymbols, Declaration.declaredSymbols,
      halphabet, SortedSet.ofList, SortedSet.insertAll]
  edges := by
    have hedges := h.edges
    cases x <;> simp [Description.declare, addedEdges, Declaration.addedEdges, hedges]
  accepting := by
    have haccepting := h.accepting
    cases x <;> simp [Description.declare, markedStates, Declaration.markedStates, haccepting]

/-- **A description holds what its declarations say together.** -/
theorem gathers_ofList (l : List Declaration) : Gathers l (.ofList l) := by
  induction l using List.reverseRecOn with
  | nil => exact gathers_empty
  | append_singleton l x ih =>
    have hlast : Description.ofList (l ++ [x]) = (Description.ofList l).declare x :=
      List.foldl_concat ..
    rw [hlast]
    exact ih.declare x

/-! ### The automaton of a description -/

/-- Where states are declared, a state that is not foreign is one of them. -/
theorem declared_of_not_isForeign (hq : ¬ IsForeign l q) (hl : HasStates l) :
    q ∈ declaredStates l :=
  Decidable.of_not_not fun hn => hq ⟨hl, hn⟩

section Assemble

variable (h : Gathers l d)
include h

/-- The automaton has the transitions that were added as edges. -/
theorem mem_transitions_assemble : t ∈ (d.assemble kind start).transitions ↔ t ∈ addedEdges l := by
  rw [← h.edges]
  exact SortedSet.mem_ofList

/-- The automaton accepts in the states that were marked. -/
theorem mem_accepting_assemble : q ∈ (d.assemble kind start).accepting ↔ q ∈ markedStates l := by
  rw [← h.accepting]
  exact SortedSet.mem_ofList

/-- Mentioned are the start state, the ends of the edges and the marked states. -/
theorem mem_mentioned : q ∈ d.mentioned start ↔ q = start ∨
    (∃ t ∈ addedEdges l, q = t.source ∨ q = t.target) ∨ q ∈ markedStates l := by
  simp [Description.mentioned, h.edges, h.accepting]

/-- A state that is mentioned is missing exactly if it is outside of the declared ones. -/
theorem mem_states_assemble (hq : q ∈ d.mentioned start) :
    q ∈ (d.assemble kind start).states ↔ ¬ IsForeign l q := by
  have hhas := h.hasStates
  have hstates := h.states
  unfold IsForeign Description.assemble
  cases hd : d.states with
  | none =>
    rw [hd] at hhas
    have hnone : ¬ HasStates l := fun hl => Bool.noConfusion (hhas.2 hl)
    simpa [hnone] using hq
  | some qs =>
    rw [hd] at hhas hstates
    have hsome : HasStates l := hhas.1 rfl
    simp only [Option.getD_some] at hstates
    simp [hsome, hstates]

/-- A symbol that is read is missing exactly if it is outside of the declared ones. -/
theorem mem_alphabet_assemble (ht : t ∈ addedEdges l) (hc : t.label = .symbol c) :
    c ∈ (d.assemble kind start).alphabet ↔ ¬ IsForeignSymbol l c := by
  have hhas := h.hasAlphabet
  have halphabet := h.alphabet
  unfold IsForeignSymbol Description.assemble
  cases hd : d.alphabet with
  | none =>
    rw [hd] at hhas
    have hnone : ¬ HasAlphabet l := fun hl => Bool.noConfusion (hhas.2 hl)
    simp only [Option.getD_none, SortedSet.mem_ofList, hnone, false_and, not_false_eq_true,
      iff_true]
    exact List.mem_filterMap.2 ⟨t, h.edges ▸ ht, by rw [hc]; rfl⟩
  | some cs =>
    rw [hd] at hhas halphabet
    have hsome : HasAlphabet l := hhas.1 rfl
    simp only [Option.getD_some] at halphabet
    simp [hsome, halphabet]

/-- The start state is a state of the automaton unless it is foreign. -/
theorem start_mem_assemble : start ∈ (d.assemble kind start).states ↔ ¬ IsForeign l start :=
  mem_states_assemble h ((mem_mentioned h).2 (.inl rfl))

/-- A marked state is a state of the automaton unless it is foreign. -/
theorem marked_mem_assemble (hq : q ∈ markedStates l) :
    q ∈ (d.assemble kind start).states ↔ ¬ IsForeign l q :=
  mem_states_assemble h ((mem_mentioned h).2 (.inr (.inr hq)))

/-- The ends of an edge are states of the automaton unless they are foreign. -/
theorem ends_mem_assemble (ht : t ∈ addedEdges l) :
    (t.source ∈ (d.assemble kind start).states ↔ ¬ IsForeign l t.source) ∧
      (t.target ∈ (d.assemble kind start).states ↔ ¬ IsForeign l t.target) :=
  ⟨mem_states_assemble h ((mem_mentioned h).2 (.inr (.inl ⟨t, ht, .inl rfl⟩))),
    mem_states_assemble h ((mem_mentioned h).2 (.inr (.inl ⟨t, ht, .inr rfl⟩)))⟩

/-- **The parts of the automaton fit together** exactly if what is mentioned is declared. -/
theorem wellFormed_assemble_iff : (d.assemble kind start).WellFormed ↔ Fit l start := by
  constructor
  · intro ha
    refine ⟨fun hl => ⟨?_, fun q hq => ?_, fun t ht => ⟨?_, ?_⟩⟩, fun hl t ht c hc => ?_⟩
    · exact declared_of_not_isForeign ((start_mem_assemble h).1 ha.start) hl
    · have hmem := ha.accepting q ((mem_accepting_assemble h).2 hq)
      exact declared_of_not_isForeign ((marked_mem_assemble h hq).1 hmem) hl
    · have hmem := ha.source t ((mem_transitions_assemble h).2 ht)
      exact declared_of_not_isForeign ((ends_mem_assemble h ht).1.1 hmem) hl
    · have hmem := ha.target t ((mem_transitions_assemble h).2 ht)
      exact declared_of_not_isForeign ((ends_mem_assemble h ht).2.1 hmem) hl
    · have hmem := ha.symbol t ((mem_transitions_assemble h).2 ht) c hc
      exact Decidable.of_not_not fun hn => (mem_alphabet_assemble h ht hc).1 hmem ⟨hl, hn⟩
  · intro hfit
    refine ⟨?_, fun q hq => ?_, fun t ht => ?_, fun t ht c hc => ?_, fun t ht => ?_⟩
    · exact (start_mem_assemble h).2 fun hf => hf.2 (hfit.states hf.1).1
    · rw [mem_accepting_assemble h] at hq
      exact (marked_mem_assemble h hq).2 fun hf => hf.2 ((hfit.states hf.1).2.1 q hq)
    · rw [mem_transitions_assemble h] at ht
      exact (ends_mem_assemble h ht).1.2 fun hf => hf.2 ((hfit.states hf.1).2.2 t ht).1
    · rw [mem_transitions_assemble h] at ht
      exact (mem_alphabet_assemble h ht hc).2 fun hf => hf.2 (hfit.alphabet hf.1 t ht c hc)
    · rw [mem_transitions_assemble h] at ht
      exact (ends_mem_assemble h ht).2.2 fun hf => hf.2 ((hfit.states hf.1).2.2 t ht).2

/-- The automaton is deterministic if the declared edges are functional. -/
theorem deterministic_assemble_iff :
    (d.assemble kind start).Deterministic ↔ AreFunctional l := by
  constructor
  · intro ha
    refine ⟨fun t ht => ha.noEpsilon t ((mem_transitions_assemble h).2 ht),
      fun c s hs t ht hsc htc hst => ?_⟩
    have heq := ha.unique s ((mem_transitions_assemble h).2 hs) t
      ((mem_transitions_assemble h).2 ht) hst (hsc.trans htc.symm)
    rw [heq]
  · intro hl
    refine ⟨fun t ht => hl.noEpsilon t ((mem_transitions_assemble h).1 ht),
      fun s hs t ht hst hlabel => ?_⟩
    rw [mem_transitions_assemble h] at hs ht
    cases hc : t.label with
    | epsilon => exact absurd hc (hl.noEpsilon t ht)
    | symbol c =>
      have htarget := hl.unique c s hs t ht (hlabel.trans hc) hc hst
      cases s
      cases t
      rw [Transition.mk.injEq]
      exact ⟨hst, hlabel, htarget⟩

/-- **The automaton has what is declared and mentioned**, and nothing else. -/
theorem describe_assemble : Describe l start kind (d.assemble kind start) where
  declaredStates hl := by
    obtain ⟨qs, hd⟩ := Option.isSome_iff_exists.1 (h.hasStates.2 hl)
    have hstates := h.states
    rw [hd] at hstates
    show (d.states.getD _).toList = _
    rw [hd, ← DistinctList.toList_ofList_eq_eraseDups, ← hstates]
    rfl
  inferredStates hl := by
    have hd : d.states = none := by
      simpa using mt h.hasStates.1 hl
    show (d.states.getD _).toList = _
    rw [hd, ← DistinctList.toList_ofList_eq_eraseDups, ← h.edges, ← h.accepting]
    rfl
  declaredAlphabet hl c := by
    obtain ⟨cs, hd⟩ := Option.isSome_iff_exists.1 (h.hasAlphabet.2 hl)
    have halphabet := h.alphabet
    rw [hd] at halphabet
    show c ∈ d.alphabet.getD _ ↔ _
    rw [hd, ← SortedSet.mem_ofList, ← halphabet]
    rfl
  inferredAlphabet hl c := by
    have hd : d.alphabet = none := by
      simpa using mt h.hasAlphabet.1 hl
    show c ∈ d.alphabet.getD _ ↔ _
    rw [hd, Option.getD_none, SortedSet.mem_ofList, List.mem_filterMap, h.edges]
    refine exists_congr fun t => and_congr_right fun _ => ?_
    cases t.label <;> simp [Label.symbol?]
  transitions _ := mem_transitions_assemble h
  accepting _ := mem_accepting_assemble h
  start := rfl
  kind := rfl

/-! ### What is wrong with a description -/

/-- What is wrong with a transition does not fit the declarations. -/
theorem misfit_of_transitionDefect? (hmarks : MarksFit l start) (ht : t ∈ addedEdges l)
    (he : (d.assemble kind start).transitionDefect? t = some e) : Misfit l start e := by
  obtain ⟨hsource, htarget⟩ :
      (t.source ∈ (d.assemble kind start).states ↔ ¬ IsForeign l t.source) ∧
        (t.target ∈ (d.assemble kind start).states ↔ ¬ IsForeign l t.target) :=
    ends_mem_assemble h ht
  unfold transitionDefect? at he
  split at he
  · next hs =>
    obtain rfl := Option.some.inj he
    exact .source hmarks ht (by_contra fun hn => hs (hsource.2 hn))
  split at he
  · next c hfound =>
    obtain rfl := Option.some.inj he
    obtain ⟨hsymbol, hc⟩ := Option.filter_eq_some_iff.1 hfound
    have hlabel : t.label = .symbol c := by
      cases hl : t.label <;> simp_all [Label.symbol?]
    have hmissing : ¬ c ∈ (d.assemble kind start).alphabet := of_decide_eq_true hc
    exact .symbol hmarks ht hlabel
      (by_contra fun hn => hmissing ((mem_alphabet_assemble h ht hlabel).2 hn))
  split at he
  · next ht' =>
    obtain rfl := Option.some.inj he
    exact .target hmarks ht (by_contra fun hn => ht' (htarget.2 hn))
  · cases he

/-- **A defect of the automaton** names something outside of what is declared. -/
theorem misfit_of_defect? (he : (d.assemble kind start).defect? = some e) : Misfit l start e := by
  have hstart : start ∈ (d.assemble kind start).states ↔ ¬ IsForeign l start :=
    start_mem_assemble h
  unfold defect? at he
  split at he
  · next hs =>
    obtain rfl := Option.some.inj he
    exact .start (by_contra fun hn => hs (hstart.2 hn))
  next hs =>
  have hknown := hstart.1 (Decidable.of_not_not hs)
  split at he
  · next q hfound =>
    obtain rfl := Option.some.inj he
    have hq : q ∈ markedStates l := (mem_accepting_assemble h).1 (List.mem_of_find?_eq_some hfound)
    have hmissing : ¬ q ∈ (d.assemble kind start).states := by
      simpa using List.find?_some hfound
    exact .accepting hknown hq
      (by_contra fun hn => hmissing ((marked_mem_assemble h hq).2 hn))
  · next hnone =>
    have hmarks : MarksFit l start := by
      rw [← Option.eq_none_iff_forall_ne_some, List.find?_eq_none] at hnone
      refine ⟨hknown, fun q hq => ?_⟩
      have hmem : q ∈ (d.assemble kind start).states := by
        simpa using hnone q ((mem_accepting_assemble h).2 hq)
      exact (marked_mem_assemble h hq).1 hmem
    obtain ⟨t, ht, he⟩ := List.exists_of_findSome?_eq_some he
    exact misfit_of_transitionDefect? h hmarks ((mem_transitions_assemble h).1 ht) he

/-- The successors of a state are the targets of the edges. -/
theorem length_successors_assemble :
    ((d.assemble kind start).successors q (.symbol c)).length = (targets l q c).length := by
  have htargets : (targets l q c).Nodup := by
    rw [targets, ← DistinctList.toList_ofList_eq_eraseDups]
    exact (DistinctList.ofList _).nodup
  refine ((List.perm_ext_iff_of_nodup (nodup_successors _ q _) htargets).2 fun r => ?_).length_eq
  rw [mem_successors, mem_transitions_assemble h, targets, List.mem_eraseDups]
  simp only [List.mem_map, List.mem_filter, Bool.and_eq_true, decide_eq_true_eq]
  constructor
  · exact fun hr => ⟨_, ⟨hr, rfl, rfl⟩, rfl⟩
  · rintro ⟨⟨p, k, r⟩, ⟨ht, rfl, rfl⟩, rfl⟩
    exact ht

/-- **What is found by the stricter check only** is a violation of determinism. -/
theorem ambiguity_of_ambiguity? (hfit : Fit l start)
    (he : (d.assemble kind start).ambiguity? = some e) : Ambiguity l start e := by
  obtain ⟨t, ht, -⟩ := ambiguity?_eq_some_iff.1 he
  cases ht with
  | epsilon ht => exact .epsilon hfit ((mem_transitions_assemble h).1 ht) rfl
  | @successors p q r c hq hr hne =>
    have hmany := (one_lt_length_successors_iff hq).2 ⟨r, hne, hr⟩
    rw [length_successors_assemble h] at hmany ⊢
    exact .targets hfit hmany

end Assemble

/-! ### Descriptions that are taken -/

/-- A description is refused with the first defect of its automaton. -/
theorem toNondeterministic_eq_error_iff :
    d.toNondeterministic start = .error e ↔
      (d.assemble .nondeterministic start).defect? = some e := by
  dsimp only [Description.toNondeterministic]
  cases (d.assemble .nondeterministic start).defect? with
  | none => simp
  | some x => simp only [Except.error.injEq, Option.some.injEq]

/-- A description is refused as deterministic with the first defect of its automaton, which may be
an ambiguity. -/
theorem toDeterministic_eq_error_iff :
    d.toDeterministic start = .error e ↔
      (d.assemble .deterministic start).deterministicDefect? = some e := by
  dsimp only [Description.toDeterministic]
  cases (d.assemble .deterministic start).deterministicDefect? with
  | none => simp
  | some x => simp only [Except.error.injEq, Option.some.injEq]

/-- **Descriptions are taken exactly if they fit**, and nothing of them is lost; otherwise the
defect names something that is wrong, and what is looked at earlier is as it should be. -/
theorem taken_iff_fit (l : List Declaration) (start : State) :
    ((∃ a, (Description.ofList l).toNondeterministic start = .ok a) ↔ Fit l start) ∧
      ((∃ a, (Description.ofList l).toDeterministic start = .ok a) ↔
        Fit l start ∧ AreFunctional l) ∧
      (∀ a, (Description.ofList l).toNondeterministic start = .ok a →
        Describe l start .nondeterministic a) ∧
      (∀ a, (Description.ofList l).toDeterministic start = .ok a →
        Describe l start .deterministic a) ∧
      (∀ e, (Description.ofList l).toNondeterministic start = .error e → Misfit l start e) ∧
      ∀ e, (Description.ofList l).toDeterministic start = .error e →
        Misfit l start e ∨ Ambiguity l start e := by
  have h := gathers_ofList l
  simp only [toNondeterministic_eq_ok_iff, toDeterministic_eq_ok_iff, wellFormed_assemble_iff h,
    deterministic_assemble_iff h, toNondeterministic_eq_error_iff, toDeterministic_eq_error_iff]
  refine ⟨⟨?_, fun hfit => ⟨_, hfit, rfl⟩⟩, ⟨?_, fun hfit => ⟨_, hfit, rfl⟩⟩, ?_, ?_, ?_, ?_⟩
  · rintro ⟨a, hfit, -⟩
    exact hfit
  · rintro ⟨a, hfit, -⟩
    exact hfit
  · rintro a ⟨-, rfl⟩
    exact describe_assemble h
  · rintro a ⟨-, rfl⟩
    exact describe_assemble h
  · exact fun e he => misfit_of_defect? h he
  · intro e he
    rcases Option.or_eq_some_iff.1 he with he | ⟨hnone, he⟩
    · exact .inl (misfit_of_defect? h he)
    · have hfit := (wellFormed_assemble_iff h).1 (defect?_eq_none_iff.1 hnone)
      exact .inr (ambiguity_of_ambiguity? h hfit he)

/-- Declarations in no particular order: states in two of them, no alphabet, an edge that is added
twice, and two edges that keep the automaton from being deterministic. -/
def scattered : List Declaration :=
  [.accepting [⟨"q"⟩], .transitions [(⟨"p"⟩, 'b', ⟨"q"⟩), (⟨"q"⟩, 'a', ⟨"r"⟩)],
    .states [⟨"q"⟩, ⟨"r"⟩], .epsilon [(⟨"r"⟩, ⟨"p"⟩)],
    .transitions [(⟨"p"⟩, 'b', ⟨"q"⟩), (⟨"p"⟩, 'b', ⟨"p"⟩)], .states [⟨"p"⟩, ⟨"q"⟩]]

/-- The hypotheses of `taken_iff_fit` are satisfiable: the declarations make an automaton, but not a
deterministic one, the first two of them make a deterministic one, and with another start state
they do not fit. -/
theorem taken_scattered :
    (∃ a, (Description.ofList scattered).toNondeterministic ⟨"r"⟩ = .ok a ∧
      Describe scattered ⟨"r"⟩ .nondeterministic a) ∧
      (∃ a, (Description.ofList (scattered.take 2)).toDeterministic ⟨"r"⟩ = .ok a ∧
        Describe (scattered.take 2) ⟨"r"⟩ .deterministic a) ∧
      (Description.ofList scattered).toDeterministic ⟨"r"⟩ = .error (.ambiguous ⟨"p"⟩ 'b' 2) ∧
      (Misfit scattered ⟨"r"⟩ (.ambiguous ⟨"p"⟩ 'b' 2) ∨
        Ambiguity scattered ⟨"r"⟩ (.ambiguous ⟨"p"⟩ 'b' 2)) ∧
      (Description.ofList scattered).toNondeterministic ⟨"s"⟩ = .error (.unknownStart ⟨"s"⟩) ∧
      Misfit scattered ⟨"s"⟩ (.unknownStart ⟨"s"⟩) := by
  obtain ⟨-, -, htaken, -, -, hrefused⟩ := taken_iff_fit scattered ⟨"r"⟩
  obtain ⟨-, -, -, hdeterministic, -, -⟩ := taken_iff_fit (scattered.take 2) ⟨"r"⟩
  obtain ⟨-, -, -, -, hmisfit, -⟩ := taken_iff_fit scattered ⟨"s"⟩
  exact ⟨⟨_, rfl, htaken _ rfl⟩, ⟨_, rfl, hdeterministic _ rfl⟩, rfl, hrefused _ rfl, rfl,
    hmisfit _ rfl⟩

/-- States that are not declared come in the order in which they are mentioned. -/
example : ((Description.ofList [.transitions [(⟨"b"⟩, 'x', ⟨"c"⟩), (⟨"a"⟩, 'x', ⟨"b"⟩)],
    .accepting [⟨"d"⟩]]).mentioned ⟨"a"⟩).toList = [⟨"a"⟩, ⟨"b"⟩, ⟨"c"⟩, ⟨"d"⟩] := by decide

end Declarations
end Automaton
end LanguageForms
