/-
# The automaton of an expression accepts its language

The fragment of an expression has the states that are numbered from `n` on, as
many as `stateCount` says, in this order (`toList_states_build`).  So the fragments
of two subexpressions have no state in common, and the new states of a union or a
star belong to neither part.  With what fragments put together spell, induction on
the expression shows that its fragment spells its words (`spells_build_iff`).

What its fragment spells the automaton of an expression accepts, so this is a
statement about the automaton (`toAutomaton_accepts_iff_matches`).
-/
import Mathlib.Data.List.Nodup
import LanguageForms.Proofs.Automaton.Fragment

namespace LanguageForms

open Fragment

namespace Regex

variable {alphabet : SortedSet Char} {r : Regex} {m n i k : Nat} {q : State} {w : List Char}

/-! ### The states of a fragment -/

/-- The states that are numbered from `m` on, `k` of them. -/
def numberedFrom (m k : Nat) : List State := (List.range' m k).map State.numbered

/-- Numbers that follow on each other make one range. -/
theorem numberedFrom_append (m k n : Nat) :
    numberedFrom m k ++ numberedFrom (m + k) n = numberedFrom m (k + n) := by
  rw [numberedFrom, numberedFrom, ← List.map_append, List.range'_append_1, numberedFrom]

/-- No number comes twice. -/
theorem nodup_numberedFrom (m k : Nat) : (numberedFrom m k).Nodup :=
  List.Nodup.map (fun _ _ => State.numbered_injective) List.nodup_range'

/-- Numbers that follow on those that are there come behind them. -/
theorem insertAll_numberedFrom {s : DistinctList State} (h : s.toList = numberedFrom m k) :
    (s.insertAll (numberedFrom (m + k) n)).toList = numberedFrom m (k + n) := by
  have hall : s.toList ++ numberedFrom (m + k) n = numberedFrom m (k + n) := by
    rw [h, numberedFrom_append]
  rw [DistinctList.toList_insertAll_of_nodup, hall]
  rw [hall]
  exact nodup_numberedFrom m (k + n)

/-- **The states** of a fragment are numbered one after the other. -/
theorem toList_states_build (alphabet : SortedSet Char) (r : Regex) (n : Nat) :
    (build alphabet r n).1.states.toList = numberedFrom n r.stateCount := by
  induction r generalizing n with
  | symbol c => exact insertAll_numberedFrom (s := .empty) (m := n) (k := 0) (n := 2) rfl
  | epsilon => exact insertAll_numberedFrom (s := .empty) (m := n) (k := 0) (n := 2) rfl
  | union l r ihl ihr =>
    have hparts : ((build alphabet l n).1.states.insertAll
        (build alphabet r (n + l.stateCount)).1.states.toList).toList =
          numberedFrom n (l.stateCount + r.stateCount) := by
      rw [ihr]
      exact insertAll_numberedFrom (ihl n)
    have hboth := insertAll_numberedFrom (n := 2) hparts
    rw [← Nat.add_assoc] at hboth
    exact hboth
  | concat l r ihl ihr =>
    show ((build alphabet l n).1.states.insertAll
      (build alphabet r (n + l.stateCount)).1.states.toList).toList = _
    rw [ihr]
    exact insertAll_numberedFrom (ihl n)
  | star r ih => exact insertAll_numberedFrom (n := 2) (ih n)

/-- A fragment has the states with the numbers that were given to it. -/
theorem mem_states_build :
    q ∈ (build alphabet r n).1.states ↔
      ∃ i, (n ≤ i ∧ i < n + r.stateCount) ∧ State.numbered i = q := by
  rw [DistinctList.mem_iff, toList_states_build, numberedFrom, List.mem_map]
  simp only [List.mem_range'_1]

/-- The number of a state tells whether a fragment has it. -/
theorem numbered_mem_states_build :
    State.numbered i ∈ (build alphabet r n).1.states ↔ n ≤ i ∧ i < n + r.stateCount := by
  rw [mem_states_build]
  constructor
  · rintro ⟨j, hj, heq⟩
    rwa [← State.numbered_injective heq]
  · exact fun h => ⟨i, h, rfl⟩

/-- Fragments with different numbers have no state in common. -/
theorem not_mem_states_build {l : Regex} (h : n + l.stateCount ≤ m) :
    ∀ q ∈ (build alphabet l n).1.states, ¬ q ∈ (build alphabet r m).1.states := by
  intro q hl hr
  obtain ⟨i, hi, rfl⟩ := mem_states_build.1 hl
  have hi' := numbered_mem_states_build.1 hr
  omega

/-- States with different numbers differ. -/
theorem numbered_ne (h : i ≠ k) : State.numbered i ≠ State.numbered k :=
  fun heq => h (State.numbered_injective heq)

/-- The parts of the fragment of an expression fit together. -/
theorem fits_build (alphabet : SortedSet Char) (r : Regex) (n : Nat) :
    (build alphabet r n).1.Fits := by
  induction r generalizing n with
  | symbol c => exact fits_basic _ _ _
  | epsilon => exact fits_basic _ _ _
  | union l r ihl ihr => exact (ihl n).inParallel (ihr _)
  | concat l r ihl ihr => exact (ihl n).inSequence (ihr _)
  | star r ih => exact (ih n).repeated

/-! ### The language of a fragment -/

/-- **The fragment of an expression** spells its words, wherever the numbers of its states
begin. -/
theorem spells_build_iff (alphabet : SortedSet Char) (r : Regex) (n : Nat) (w : List Char) :
    (build alphabet r n).1.Spells w ↔ r.Matches w := by
  induction r generalizing n w with
  | symbol c => exact (spells_basic_iff (numbered_ne (by omega))).trans matches_symbol_iff.symm
  | epsilon => exact (spells_basic_iff (numbered_ne (by omega))).trans matches_epsilon_iff.symm
  | union l r ihl ihr =>
    have hnew : ∀ i, n + l.stateCount + r.stateCount ≤ i →
        ¬ (State.numbered i ∈ (build alphabet l n).1.states ∨
          State.numbered i ∈ (build alphabet r (n + l.stateCount)).1.states) := by
      intro i hi
      rw [numbered_mem_states_build, numbered_mem_states_build]
      omega
    rw [matches_union_iff, ← ihl n, ← ihr (n + l.stateCount)]
    exact spells_inParallel_iff (fits_build ..) (fits_build ..) (not_mem_states_build (by omega))
      (hnew _ (by omega)) (hnew _ (by omega)) (numbered_ne (by omega))
  | concat l r ihl ihr =>
    rw [matches_concat_iff]
    simp only [← ihl n, ← ihr (n + l.stateCount)]
    exact spells_inSequence_iff (fits_build ..) (fits_build ..) (not_mem_states_build (by omega))
  | star r ih =>
    have hnew : ∀ i, n + r.stateCount ≤ i →
        ¬ State.numbered i ∈ (build alphabet r n).1.states := by
      intro i hi
      rw [numbered_mem_states_build]
      omega
    exact spells_repeated_iff (fits_build ..) (hnew _ (by omega)) (hnew _ (by omega))
      (numbered_ne (by omega)) (ih n)

/-- **The automaton of an expression accepts exactly its language.** -/
theorem toAutomaton_accepts_iff_matches (r : Regex) (w : List Char) :
    r.toAutomaton.1.accepts w = true ↔ r.Matches w := by
  show ((build r.alphabet r 0).1.toAutomaton r.alphabet).accepts w = true ↔ _
  rw [Fragment.accepts_toAutomaton_iff, spells_build_iff]

end Regex
end LanguageForms
