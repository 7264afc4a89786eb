/-
# What keeps an automaton from being deterministic

A transition is ambiguous if it reads nothing, or if its state has another successor on
its symbol (`Automaton.Ambiguity`).  The check for determinism goes through the
transitions in their order, so it finds what is wrong with the first ambiguous one
(`ambiguity?_eq_some_iff`), and it finds something exactly if there is a transition that
reads nothing or a state with two successors on one symbol (`exists_firstAmbiguity_iff`).
-/
import LanguageForms.Automaton.Defect
import Mathlib.Data.List.Nodup

namespace LanguageForms

/-- A search through a set finds what the first member gives that gives anything. -/
theorem SortedSet.findSome?_eq_some_iff {α β : Type} [Sortable α] {s : SortedSet α}
    {f : α → Option β} {b : β} :
    s.toList.findSome? f = some b ↔
      ∃ a ∈ s, f a = some b ∧ ∀ x ∈ s, f x ≠ none → before x a = false := by
  have hsorted := s.sorted
  constructor
  · intro h
    obtain ⟨l, a, m, hs, ha, hl⟩ := List.findSome?_eq_some_iff.1 h
    have hmem : a ∈ s.toList := hs ▸ List.mem_append_right _ (List.mem_cons_self ..)
    refine ⟨a, hmem, ha, fun x hx hsome => ?_⟩
    rw [mem_iff, hs, List.mem_append, List.mem_cons] at hx
    rw [hs, List.pairwise_append, List.pairwise_cons] at hsorted
    rcases hx with hx | rfl | hx
    · exact absurd (hl x hx) hsome
    · exact before_irrefl x
    · exact before_asymm (hsorted.2.1.1 x hx)
  · rintro ⟨a, ha, hb, hfirst⟩
    obtain ⟨l, m, hs⟩ := List.append_of_mem ha
    refine List.findSome?_eq_some_iff.2 ⟨l, a, m, hs, hb, fun x hx => ?_⟩
    have hmem : x ∈ s.toList := hs ▸ List.mem_append_left _ hx
    rw [hs, List.pairwise_append] at hsorted
    -- what is listed in front of the member comes before it, so it gives nothing
    have hbefore := hsorted.2.2 x hx a (List.mem_cons_self ..)
    by_contra hsome
    rw [hfirst x hmem hsome] at hbefore
    cases hbefore

namespace Automaton

variable {a : Automaton} {p q : State} {c : Char} {d : Defect} {t : Transition}

/-- The transition is ambiguous, and this is what is said about it. -/
inductive Ambiguity (a : Automaton) : Transition → Defect → Prop where
  | epsilon {p q : State} :
      ⟨p, .epsilon, q⟩ ∈ a.transitions → Ambiguity a ⟨p, .epsilon, q⟩ (.epsilonFrom p)
  | successors {p q r : State} {c : Char} :
      ⟨p, .symbol c, q⟩ ∈ a.transitions → ⟨p, .symbol c, r⟩ ∈ a.transitions → q ≠ r →
        Ambiguity a ⟨p, .symbol c, q⟩ (.ambiguous p c (a.successors p (.symbol c)).length)

/-- No ambiguous transition comes before the one to which the defect belongs. -/
def FirstAmbiguity (a : Automaton) (d : Defect) : Prop :=
  ∃ t, a.Ambiguity t d ∧ ∀ s e, a.Ambiguity s e → before s t = false

/-- Some transition reads nothing, or some state has two different successors on one symbol. -/
def IsAmbiguous (a : Automaton) : Prop :=
  (∃ p q, ⟨p, .epsilon, q⟩ ∈ a.transitions) ∨
    ∃ p c q r, q ≠ r ∧ ⟨p, .symbol c, q⟩ ∈ a.transitions ∧ ⟨p, .symbol c, r⟩ ∈ a.transitions

/-- An ambiguity begins with a transition of the automaton. -/
theorem Ambiguity.mem (h : a.Ambiguity t d) : t ∈ a.transitions := by
  cases h with
  | epsilon ht => exact ht
  | successors ht _ _ => exact ht

/-- No successor is listed twice. -/
theorem nodup_successors (a : Automaton) (p : State) (l : Label) : (a.successors p l).Nodup := by
  refine List.Nodup.map_on (fun s hs t ht heq => ?_) (a.transitions.nodup.filter _)
  rw [List.mem_filter, Bool.and_eq_true, decide_eq_true_eq, decide_eq_true_eq] at hs ht
  obtain ⟨-, hsl, hsp⟩ := hs
  obtain ⟨-, htl, htp⟩ := ht
  cases s
  cases t
  rw [Transition.mk.injEq]
  exact ⟨hsp.trans htp.symm, hsl.trans htl.symm, heq⟩

/-- A state with a successor on a symbol has several exactly if it has a different one. -/
theorem one_lt_length_successors_iff (ht : ⟨p, .symbol c, q⟩ ∈ a.transitions) :
    1 < (a.successors p (.symbol c)).length ↔ ∃ r, q ≠ r ∧ ⟨p, .symbol c, r⟩ ∈ a.transitions := by
  rw [← Nat.not_le, length_le_one_iff (nodup_successors a p _)]
  simp only [mem_successors]
  constructor
  · intro h
    by_contra hnone
    have hall : ∀ r, ⟨p, .symbol c, r⟩ ∈ a.transitions → q = r := fun r hr =>
      Decidable.of_not_not fun hne => hnone ⟨r, hne, hr⟩
    exact h fun x hx y hy => (hall x hx).symm.trans (hall y hy)
  · rintro ⟨r, hne, hr⟩ h
    exact hne (h q ht r hr)

/-- What the check says about a transition. -/
theorem transitionAmbiguity?_eq_some_iff (ht : t ∈ a.transitions) :
    a.transitionAmbiguity? t = some d ↔ a.Ambiguity t d := by
  obtain ⟨p, l, q⟩ := t
  unfold transitionAmbiguity?
  cases l with
  | epsilon =>
    constructor
    · intro h
      rw [← Option.some.inj h]
      exact .epsilon ht
    · intro h
      cases h
      rfl
  | symbol c =>
    show (if 1 < (a.successors p (.symbol c)).length then some _ else none) = some d ↔ _
    rw [Option.ite_none_right_eq_some, one_lt_length_successors_iff ht, Option.some_inj]
    constructor
    · rintro ⟨⟨r, hne, hr⟩, rfl⟩
      exact .successors ht hr hne
    · intro h
      cases h with
      | successors _ hr hne => exact ⟨⟨_, hne, hr⟩, rfl⟩

/-- **The check finds the first ambiguous transition.** -/
theorem ambiguity?_eq_some_iff : a.ambiguity? = some d ↔ a.FirstAmbiguity d := by
  rw [ambiguity?, SortedSet.findSome?_eq_some_iff]
  constructor
  · rintro ⟨t, ht, hd, hfirst⟩
    refine ⟨t, (transitionAmbiguity?_eq_some_iff ht).1 hd, fun s e hs => hfirst s hs.mem ?_⟩
    rw [(transitionAmbiguity?_eq_some_iff hs.mem).2 hs]
    exact Option.some_ne_none e
  · rintro ⟨t, ht, hfirst⟩
    refine ⟨t, ht.mem, (transitionAmbiguity?_eq_some_iff ht.mem).2 ht, fun s hs hsome => ?_⟩
    obtain ⟨e, he⟩ := Option.ne_none_iff_exists'.1 hsome
    exact hfirst s e ((transitionAmbiguity?_eq_some_iff hs).1 he)

/-- The automaton is ambiguous if there is an ambiguity at some transition. -/
theorem isAmbiguous_iff : a.IsAmbiguous ↔ ∃ t d, a.Ambiguity t d := by
  constructor
  · rintro (⟨p, q, ht⟩ | ⟨p, c, q, r, hne, hq, hr⟩)
    · exact ⟨_, _, .epsilon ht⟩
    · exact ⟨_, _, .successors hq hr hne⟩
  · rintro ⟨t, d, h⟩
    cases h with
    | epsilon ht => exact .inl ⟨_, _, ht⟩
    | successors hq hr hne => exact .inr ⟨_, _, _, _, hne, hq, hr⟩

/-- If there is an ambiguous transition, there is a first one. -/
theorem exists_firstAmbiguity_iff : (∃ d, a.FirstAmbiguity d) ↔ a.IsAmbiguous := by
  rw [isAmbiguous_iff]
  constructor
  · rintro ⟨d, t, ht, -⟩
    exact ⟨t, d, ht⟩
  · rintro ⟨t, d, ht⟩
    cases hfound : a.ambiguity? with
    | none =>
      have hnone := List.findSome?_eq_none_iff.1 hfound t ht.mem
      rw [(transitionAmbiguity?_eq_some_iff ht.mem).2 ht] at hnone
      cases hnone
    | some e => exact ⟨e, ambiguity?_eq_some_iff.1 hfound⟩

end Automaton
end LanguageForms
