/-
# Sweeping until nothing is added

A sweep only adds pairs, and the number that a relation keeps is the number of
its pairs (`Relation.Counted`).  So a sweep that leaves the number as it is has
added nothing, and every firing then leads to pairs that are there already
(`IsStable.mem_image`).  All pairs link the situation of a firing with the point
that a firing leads to, hence there are at most as many as the square of the
number of firings, and `isStable_saturate` says that the sweeps end for that
reason and not because their number runs out.

What every firing keeps holds of all pairs that are found (`within_saturate`).
-/
import Mathlib.Data.List.ProdSigma
import LanguageForms.Pushdown.Summary

namespace LanguageForms
namespace Pushdown
namespace Relation

/-- All pairs of the relation have a property. -/
def Within (r : Relation) (Q : Situation → Point → Prop) : Prop :=
  ∀ s p, p ∈ r.image s → Q s p

/-- The number that the relation keeps is the number of its pairs: they can be listed, each
once, in a list of that length. -/
def Counted (r : Relation) : Prop :=
  ∃ pairs : List (Situation × Point), pairs.Nodup ∧ pairs.length = r.count ∧
    ∀ s p, (s, p) ∈ pairs ↔ p ∈ r.image s

variable {r : Relation} {s : Situation} {p : Point} {ps : List Point}
  {Q : Situation → Point → Prop}

/-- The empty relation has every property of pairs. -/
theorem within_empty : empty.Within Q := by
  intro s p hp
  rw [image_empty] at hp
  exact absurd hp List.not_mem_nil

/-- Adding pairs with a property keeps it. -/
theorem Within.addAll (h : r.Within Q) (hps : ∀ p ∈ ps, Q s p) : (r.addAll s ps).Within Q := by
  intro t q hq
  rcases mem_image_addAll.1 hq with hq | ⟨rfl, hnew⟩
  · exact h t q hq
  · exact hps q hnew

/-- The empty relation has no pairs. -/
theorem counted_empty : empty.Counted := by
  refine ⟨[], .nil, rfl, fun s p => ?_⟩
  rw [image_empty]
  exact iff_of_false List.not_mem_nil List.not_mem_nil

/-- The number is kept right when a pair is added. -/
theorem Counted.add (h : r.Counted) (s : Situation) (p : Point) : (r.add s p).Counted := by
  obtain ⟨pairs, hnodup, hlength, hmem⟩ := h
  by_cases hp : p ∈ r.image s
  · rw [show r.add s p = r from if_pos hp]
    exact ⟨pairs, hnodup, hlength, hmem⟩
  · have hnew : ¬ (s, p) ∈ pairs := fun hm => hp ((hmem s p).1 hm)
    refine ⟨(s, p) :: pairs, List.nodup_cons.2 ⟨hnew, hnodup⟩, ?_, fun t q => ?_⟩
    · rw [count_add, if_neg hp, List.length_cons, hlength]
    · rw [mem_image_add, List.mem_cons, hmem, Prod.mk.injEq, or_comm]
      exact or_congr_right (and_congr_left' eq_comm)

/-- The number is kept right when several pairs are added. -/
theorem Counted.addAll (h : r.Counted) (s : Situation) (ps : List Point) :
    (r.addAll s ps).Counted := by
  induction ps generalizing r with
  | nil => exact h
  | cons p ps ih => exact ih (h.add s p)

/-- A relation between finitely many situations and points has at most as many pairs as there
are choices of both. -/
theorem Counted.count_le {situations : List Situation} {points : List Point} (h : r.Counted)
    (hr : r.Within fun s p => s ∈ situations ∧ p ∈ points) :
    r.count ≤ situations.length * points.length := by
  obtain ⟨pairs, hnodup, hlength, hmem⟩ := h
  have hsub : pairs ⊆ situations ×ˢ points := by
    rintro ⟨s, p⟩ hsp
    exact List.mem_product.2 (hr s p ((hmem s p).1 hsp))
  have hle := hnodup.length_le_of_subset hsub
  rwa [hlength, List.length_product] at hle

/-- No pair is lost when one is added. -/
theorem count_le_count_add (r : Relation) (s : Situation) (p : Point) :
    r.count ≤ (r.add s p).count := by
  rw [count_add]
  split <;> omega

/-- No pair is lost when several are added. -/
theorem count_le_count_addAll (r : Relation) (s : Situation) (ps : List Point) :
    r.count ≤ (r.addAll s ps).count := by
  induction ps generalizing r with
  | nil => exact Nat.le_refl _
  | cons p ps ih => exact Nat.le_trans (count_le_count_add r s p) (ih (r.add s p))

/-- A pair that does not change the number of pairs is there already. -/
theorem mem_image_of_count_add (h : (r.add s p).count = r.count) : p ∈ r.image s := by
  rw [count_add] at h
  split at h
  · assumption
  · omega

/-- Pairs that do not change the number of pairs do not change the relation. -/
theorem addAll_eq_self_of_count (h : (r.addAll s ps).count = r.count) :
    r.addAll s ps = r ∧ ∀ p ∈ ps, p ∈ r.image s := by
  induction ps with
  | nil => exact ⟨rfl, fun p hp => absurd hp List.not_mem_nil⟩
  | cons p ps ih =>
    have hp : p ∈ r.image s := by
      have h₁ := count_le_count_add r s p
      have h₂ := count_le_count_addAll (r.add s p) s ps
      have h₃ : ((r.add s p).addAll s ps).count = r.count := h
      exact mem_image_of_count_add (by omega)
    have hadd : r.addAll s (p :: ps) = r.addAll s ps := by
      show (r.add s p).addAll s ps = r.addAll s ps
      rw [show r.add s p = r from if_pos hp]
    rw [hadd] at h ⊢
    obtain ⟨hself, hps⟩ := ih h
    refine ⟨hself, fun q hq => ?_⟩
    rcases List.mem_cons.1 hq with rfl | hq
    · exact hp
    · exact hps q hq

end Relation

variable {derive : Relation → Firing → List Point} {fs : List Firing} {r : Relation}
  {Q : Situation → Point → Prop}

/-- Every firing keeps a property of all pairs. -/
def Keeps (derive : Relation → Firing → List Point) (fs : List Firing)
    (Q : Situation → Point → Prop) : Prop :=
  ∀ r : Relation, r.Within Q → ∀ f ∈ fs, ∀ p ∈ derive r f, Q f.situation p

/-- One more sweep adds nothing. -/
def IsStable (derive : Relation → Firing → List Point) (fs : List Firing) (r : Relation) : Prop :=
  (sweep derive fs r).count = r.count

/-- A sweep uses the first firing and then the others. -/
theorem sweep_cons (f : Firing) (fs : List Firing) (r : Relation) :
    sweep derive (f :: fs) r = sweep derive fs (r.addAll f.situation (derive r f)) := rfl

/-- **A sweep keeps a property** of all pairs that every firing keeps. -/
theorem within_sweep (hkeeps : Keeps derive fs Q) (hr : r.Within Q) :
    (sweep derive fs r).Within Q := by
  induction fs generalizing r with
  | nil => exact hr
  | cons f fs ih =>
    rw [sweep_cons]
    refine ih (fun r hr g hg => hkeeps r hr g (List.mem_cons_of_mem _ hg)) ?_
    exact hr.addAll (hkeeps r hr f (List.mem_cons_self ..))

/-- A sweep keeps the number right. -/
theorem counted_sweep (hr : r.Counted) : (sweep derive fs r).Counted := by
  induction fs generalizing r with
  | nil => exact hr
  | cons f fs ih => exact ih (hr.addAll f.situation (derive r f))

/-- No pair is lost in a sweep. -/
theorem count_le_count_sweep (derive : Relation → Firing → List Point) (fs : List Firing)
    (r : Relation) : r.count ≤ (sweep derive fs r).count := by
  induction fs generalizing r with
  | nil => exact Nat.le_refl _
  | cons f fs ih => exact Nat.le_trans (Relation.count_le_count_addAll r _ _) (ih _)

/-- **A stable relation is closed**: what a firing leads to is there already. -/
theorem IsStable.mem_image (h : IsStable derive fs r) {f : Firing} (hf : f ∈ fs) {p : Point}
    (hp : p ∈ derive r f) : p ∈ r.image f.situation := by
  induction fs with
  | nil => exact absurd hf List.not_mem_nil
  | cons g fs ih =>
    have hadd : (r.addAll g.situation (derive r g)).count = r.count := by
      have h₁ := Relation.count_le_count_addAll r g.situation (derive r g)
      have h₂ := count_le_count_sweep derive fs (r.addAll g.situation (derive r g))
      have h₃ : (sweep derive fs (r.addAll g.situation (derive r g))).count = r.count := h
      omega
    obtain ⟨hself, hmem⟩ := Relation.addAll_eq_self_of_count hadd
    rcases List.mem_cons.1 hf with rfl | hf
    · exact hmem p hp
    · refine ih ?_ hf
      have h₃ : (sweep derive fs (r.addAll g.situation (derive r g))).count = r.count := h
      rwa [hself] at h₃

/-- **What every firing keeps holds of all pairs that are found.** -/
theorem within_saturate (hkeeps : Keeps derive fs Q) (hr : r.Within Q) (n : Nat) :
    (saturate derive fs n r).Within Q := by
  induction n generalizing r with
  | zero => exact hr
  | succ n ih =>
    rw [saturate]
    split
    · exact hr
    · exact ih (within_sweep hkeeps hr)

/-- Sweeps that may add more pairs than there can be end with a stable relation. -/
theorem isStable_saturate_of_lt {situations : List Situation} {points : List Point} {n : Nat}
    (hkeeps : Keeps derive fs fun s p => s ∈ situations ∧ p ∈ points) (hcounted : r.Counted)
    (hr : r.Within fun s p => s ∈ situations ∧ p ∈ points)
    (hn : situations.length * points.length < r.count + n) :
    IsStable derive fs (saturate derive fs n r) := by
  induction n generalizing r with
  | zero =>
    have hle := hcounted.count_le hr
    omega
  | succ n ih =>
    rw [saturate]
    split
    · assumption
    · next hne =>
      have hle := count_le_count_sweep derive fs r
      refine ih (counted_sweep hcounted) (within_sweep hkeeps hr) ?_
      omega

/-- Sweeps are made until one adds nothing, and lead from one relation to the other. -/
inductive Saturates (derive : Relation → Firing → List Point) (fs : List Firing) :
    Relation → Relation → Prop where
  | done {r : Relation} : IsStable derive fs r → Saturates derive fs r r
  | more {r s : Relation} : ¬ IsStable derive fs r → Saturates derive fs (sweep derive fs r) s →
      Saturates derive fs r s

/-- A stable end is where sweeping without a bound ends. -/
theorem IsStable.saturates {n : Nat} (h : IsStable derive fs (saturate derive fs n r)) :
    Saturates derive fs r (saturate derive fs n r) := by
  induction n generalizing r with
  | zero => exact .done h
  | succ n ih =>
    rw [saturate] at h ⊢
    split
    · next heq => exact .done heq
    · next hne =>
      rw [if_neg hne] at h
      exact .more hne (ih h)

/-- The pair links the situation of a firing with the point that a firing leads to. -/
def IsLink (fs : List Firing) (s : Situation) (p : Point) : Prop :=
  s ∈ fs.map Firing.situation ∧ p ∈ fs.map Firing.next

/-- **The sweeps end by themselves** if every firing leads to points of firings only: the bound
on their number is never what ends them. -/
theorem isStable_saturate (hkeeps : Keeps derive fs (IsLink fs)) :
    IsStable derive fs (saturate derive fs (sweepBound fs) .empty) := by
  refine isStable_saturate_of_lt hkeeps Relation.counted_empty Relation.within_empty ?_
  rw [List.length_map, List.length_map, sweepBound]
  omega

end Pushdown
end LanguageForms
