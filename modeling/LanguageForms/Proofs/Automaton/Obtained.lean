/-
# Every automaton that is handed out is proper

Only a description is checked when it becomes an automaton.  What is drawn, built for
an expression, determinised or widened is put together without a check, and so is
what the steps on the way show.  Still its parts fit together, and it is
deterministic if it says so (`Automaton.Proper`).

No operation has to rely on the ones before it: those that are given an automaton check
it, and say what they have checked (`determinise_eq_ok_iff`, `widen_eq_ok_iff`).  So what
is handed out is proper by cases on the last operation of the chain (`Obtained.proper`).
-/
import LanguageForms.Proofs.Automaton.Narration
import LanguageForms.Proofs.Automaton.Random
import LanguageForms.Proofs.Regex.Steps

namespace LanguageForms
namespace Automaton

variable {a d s : Automaton} {trace : Trace}

/-- The parts of the automaton fit together, and it is deterministic if it says so. -/
structure Proper (a : Automaton) : Prop where
  wellFormed : a.WellFormed
  deterministic : a.kind = .deterministic → a.Deterministic

/-- A nondeterministic automaton is proper if its parts fit together. -/
theorem WellFormed.proper (h : a.WellFormed) (hkind : a.kind = .nondeterministic) : a.Proper where
  wellFormed := h
  deterministic hdet := by
    rw [hkind] at hdet
    cases hdet

/-- A proper automaton passes the check, and the stricter one if it calls itself deterministic. -/
theorem Proper.checks (h : a.Proper) :
    a.check = .ok () ∧ (a.kind = .deterministic → a.checkDeterministic = .ok ()) :=
  ⟨check_eq_ok_iff.2 h.wellFormed, fun hkind =>
    checkDeterministic_eq_ok_iff.2 ⟨h.wellFormed, h.deterministic hkind⟩⟩

/-! ### Descriptions -/

/-- The stricter check finds nothing in a deterministic automaton whose parts fit together. -/
theorem deterministicDefect?_eq_none_iff :
    a.deterministicDefect? = none ↔ a.WellFormed ∧ a.Deterministic := by
  rw [deterministicDefect?, Option.or_eq_none_iff, defect?_eq_none_iff, ambiguity?_eq_none_iff]

/-- A description is taken as a nondeterministic automaton exactly if its parts fit together. -/
theorem toNondeterministic_eq_ok_iff {l : Description} {start : State} :
    l.toNondeterministic start = .ok a ↔
      (l.assemble .nondeterministic start).WellFormed ∧
        l.assemble .nondeterministic start = a := by
  rw [← defect?_eq_none_iff]
  dsimp only [Description.toNondeterministic]
  cases (l.assemble .nondeterministic start).defect? with
  | none => simp only [Except.ok.injEq, true_and]
  | some e => simp

/-- A description is taken as a deterministic automaton exactly if it is one. -/
theorem toDeterministic_eq_ok_iff {l : Description} {start : State} :
    l.toDeterministic start = .ok a ↔
      ((l.assemble .deterministic start).WellFormed ∧
        (l.assemble .deterministic start).Deterministic) ∧
        l.assemble .deterministic start = a := by
  rw [← deterministicDefect?_eq_none_iff]
  dsimp only [Description.toDeterministic]
  cases (l.assemble .deterministic start).deterministicDefect? with
  | none => simp only [Except.ok.injEq, true_and]
  | some e => simp

/-! ### Determinising -/

/-- An automaton is determinised exactly if its parts fit together. -/
theorem determinise_eq_ok_iff :
    a.determinise = .ok (d, trace) ↔ a.WellFormed ∧ a.subsets = (d, trace) := by
  rw [← defect?_eq_none_iff, determinise]
  cases a.defect? with
  | none => simp only [Except.ok.injEq, true_and]
  | some e => simp

/-- What is determinised is proper. -/
theorem proper_subsets (ha : a.WellFormed) : a.subsets.1.Proper :=
  ⟨wellFormed_subsets ha, fun _ => deterministic_subsets ha⟩

/-- **Every step of the discovery** shows a proper automaton. -/
theorem proper_of_shows_subsets (ha : a.WellFormed) (h : a.subsets.2.Shows s) : s.Proper := by
  obtain ⟨fs, gs, hevents, hne, rfl⟩ := Subset.exists_of_shows_subsets h
  exact ⟨Subset.wellFormed_replay ha hevents hne, fun _ => Subset.deterministic_replay ha hevents⟩

/-! ### Widening -/

/-- An automaton is widened exactly if it is a deterministic one. -/
theorem widen_eq_ok_iff :
    a.widen = .ok (d, trace) ↔
      (a.WellFormed ∧ a.Deterministic) ∧ a.asNondeterministic = d ∧ a.wideningTrace = trace := by
  rw [← deterministicDefect?_eq_none_iff, widen]
  cases a.deterministicDefect? with
  | none => simp only [Except.ok.injEq, Prod.mk.injEq, true_and]
  | some e => simp

/-- The parts of a widened automaton fit together. -/
theorem wellFormed_asNondeterministic (ha : a.WellFormed) : a.asNondeterministic.WellFormed :=
  ⟨ha.start, ha.accepting, ha.source, ha.symbol, ha.target⟩

/-- The parts fit together without the transitions, too. -/
theorem wellFormed_skeleton (ha : a.WellFormed) : a.skeleton.WellFormed :=
  ⟨ha.start, ha.accepting, fun _ ht => absurd ht SortedSet.not_mem_empty,
    fun _ ht => absurd ht SortedSet.not_mem_empty, fun _ ht => absurd ht SortedSet.not_mem_empty⟩

/-- Widening shows the automaton without its transitions, and then with them. -/
theorem shows_wideningTrace (h : a.wideningTrace.Shows s) :
    s = a.skeleton ∨ s = a.asNondeterministic := by
  obtain ⟨e, he, hs⟩ := h.exists_step
  rcases List.mem_cons.1 he with rfl | he
  · exact .inl (Trace.Entry.eq_of_showing hs)
  rcases List.mem_cons.1 he with rfl | he
  · exact .inr (Trace.Entry.eq_of_showing hs)
  · rw [List.mem_singleton.1 he] at hs
    exact .inr (Trace.Entry.eq_of_showing hs)

/-- **Every step of the widening** shows a proper automaton. -/
theorem proper_of_shows_wideningTrace (ha : a.WellFormed) (h : a.wideningTrace.Shows s) :
    s.Proper := by
  rcases shows_wideningTrace h with rfl | rfl
  · exact (wellFormed_skeleton ha).proper rfl
  · exact (wellFormed_asNondeterministic ha).proper rfl

/-! ### All chains of operations -/

/-- **What is handed out is proper.** -/
theorem Obtained.proper (h : a.Obtained) : a.Proper := by
  cases h with
  | described h =>
    obtain ⟨ha, rfl⟩ := toNondeterministic_eq_ok_iff.1 h
    exact ha.proper rfl
  | describedDeterministic h =>
    obtain ⟨⟨ha, hdet⟩, rfl⟩ := toDeterministic_eq_ok_iff.1 h
    exact ⟨ha, fun _ => hdet⟩
  | drawn => exact (wellFormed_drawNondeterministic ..).proper rfl
  | drawnDeterministic =>
    exact ⟨wellFormed_drawDeterministic .., fun _ => deterministic_drawDeterministic ..⟩
  | ofRegex r => exact (Regex.wellFormed_toAutomaton r).proper rfl
  | shownOfRegex h =>
    exact (Regex.wellFormed_of_shows_toAutomaton h).proper (Regex.kind_of_shows_toAutomaton h)
  | determinised _ h =>
    obtain ⟨ha, heq⟩ := determinise_eq_ok_iff.1 h
    obtain ⟨rfl, -⟩ := Prod.mk.inj heq
    exact proper_subsets ha
  | shownDeterminised _ h hshows =>
    obtain ⟨ha, heq⟩ := determinise_eq_ok_iff.1 h
    obtain ⟨-, rfl⟩ := Prod.mk.inj heq
    exact proper_of_shows_subsets ha hshows
  | widened _ h =>
    obtain ⟨⟨ha, -⟩, rfl, -⟩ := widen_eq_ok_iff.1 h
    exact (wellFormed_asNondeterministic ha).proper rfl
  | shownWidened _ h hshows =>
    obtain ⟨⟨ha, -⟩, -, rfl⟩ := widen_eq_ok_iff.1 h
    exact proper_of_shows_wideningTrace ha hshows

/-- **Every automaton that any chain of operations hands out passes the check**, and the stricter
one as well if it calls itself deterministic. -/
theorem Obtained.check_eq_ok (h : a.Obtained) :
    a.check = .ok () ∧ (a.kind = .deterministic → a.checkDeterministic = .ok ()) :=
  h.proper.checks

/-- The hypothesis of `Obtained.check_eq_ok` is satisfiable: what the first step of a
determinisation shows, here of the automaton of `a*`, is handed out, and both checks are passed. -/
theorem check_first_of_star :
    let n := (Regex.star (.symbol 'a')).toAutomaton.1
    let d := (Subset.Event.create (Subset.first n) .initial).apply n (Subset.blank n)
    d.Obtained ∧ d.check = .ok () ∧ d.checkDeterministic = .ok () := by
  intro n d
  have hdone : n.determinise = .ok (n.subsets.1, n.subsets.2) :=
    determinise_eq_ok_iff.2 ⟨Regex.wellFormed_toAutomaton _, rfl⟩
  have hshows : n.subsets.2.Shows d := ⟨_, List.mem_cons_of_mem _ (List.mem_cons_self ..), rfl⟩
  have hd : d.Obtained := .shownDeterminised (.ofRegex _) hdone hshows
  exact ⟨hd, hd.check_eq_ok.1, hd.check_eq_ok.2 rfl⟩

end Automaton
end LanguageForms
