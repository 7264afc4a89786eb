/-
# Finite sets with one listing

A `SortedSet` is a list in strictly ascending order.  There is one such list for
every finite set, so two sets are equal as soon as they have the same members
(`SortedSet.ext_mem`), and the order of listing is part of the value.

`mem_insert`, `mem_union`, `mem_ofList` and `mem_filter` say what each operation
does to the members; nothing else about the operations is needed.
-/
import LanguageForms.Order

namespace LanguageForms

/-- A finite set, listed in ascending order and without repetition. -/
structure SortedSet (α : Type) [Sortable α] where
  toList : List α
  sorted : toList.Pairwise fun a b => before a b = true
deriving DecidableEq

namespace SortedSet

variable {α : Type} [Sortable α]

instance : Membership α (SortedSet α) := ⟨fun s a => a ∈ s.toList⟩

/-- A member is a member of the list. -/
theorem mem_iff {a : α} {s : SortedSet α} : a ∈ s ↔ a ∈ s.toList := Iff.rfl

instance [DecidableEq α] (a : α) (s : SortedSet α) : Decidable (a ∈ s) :=
  inferInstanceAs (Decidable (a ∈ s.toList))

/-- Two strictly ascending lists with the same members are the same list. -/
theorem list_ext {k l : List α} (hk : k.Pairwise fun a b => before a b = true)
    (hl : l.Pairwise fun a b => before a b = true) (h : ∀ a, a ∈ k ↔ a ∈ l) : k = l := by
  induction k generalizing l with
  | nil => cases l with
    | nil => rfl
    | cons b l => exact absurd ((h b).2 (List.mem_cons_self ..)) (List.not_mem_nil)
  | cons a k ih => cases l with
    | nil => exact absurd ((h a).1 (List.mem_cons_self ..)) (List.not_mem_nil)
    | cons b l =>
      rw [List.pairwise_cons] at hk hl
      have hab : a = b := by
        rcases List.mem_cons.1 ((h a).1 (List.mem_cons_self ..)) with hab | hal
        · exact hab
        · rcases List.mem_cons.1 ((h b).2 (List.mem_cons_self ..)) with hba | hbk
          · exact hba.symm
          · have h₁ := before_asymm (hk.1 b hbk)
            rw [hl.1 a hal] at h₁
            exact Bool.noConfusion h₁
      subst hab
      rw [ih hk.2 hl.2 fun x => ?_]
      constructor
      · intro hx
        rcases List.mem_cons.1 ((h x).1 (List.mem_cons_of_mem _ hx)) with rfl | hxl
        · exact absurd rfl (ne_of_before (hk.1 x hx))
        · exact hxl
      · intro hx
        rcases List.mem_cons.1 ((h x).2 (List.mem_cons_of_mem _ hx)) with rfl | hxk
        · exact absurd rfl (ne_of_before (hl.1 x hx))
        · exact hxk

/-- Two sets with the same members are equal. -/
theorem ext_mem {s t : SortedSet α} (h : ∀ a, a ∈ s ↔ a ∈ t) : s = t := by
  cases s with | mk k hk =>
  cases t with | mk l hl =>
  have hkl : k = l := list_ext hk hl h
  subst hkl
  rfl

/-- No member is listed twice. -/
theorem nodup (s : SortedSet α) : s.toList.Nodup :=
  s.sorted.imp ne_of_before

/-- The set without members. -/
def empty : SortedSet α := ⟨[], .nil⟩

/-- The set with one member. -/
def singleton (a : α) : SortedSet α := ⟨[a], List.pairwise_singleton ..⟩

/-- The empty set has no members. -/
@[simp] theorem not_mem_empty {a : α} : ¬ a ∈ (empty : SortedSet α) := List.not_mem_nil

/-- A set of one value has that member only. -/
@[simp] theorem mem_singleton {a b : α} : a ∈ singleton b ↔ a = b := List.mem_singleton

/-- Puts a value at its place in an ascending list, unless it is there already. -/
def insertList (a : α) : List α → List α
  | [] => [a]
  | b :: l =>
    if before a b then a :: b :: l
    else if before b a then b :: insertList a l
    else b :: l

/-- Inserting adds the value to the members of a list. -/
theorem mem_insertList {a x : α} {l : List α} : x ∈ insertList a l ↔ x = a ∨ x ∈ l := by
  induction l with
  | nil => simp only [insertList, List.mem_singleton, List.not_mem_nil, or_false]
  | cons b l ih =>
    rw [insertList]
    split
    · exact List.mem_cons
    · next hab =>
      split
      · rw [List.mem_cons, List.mem_cons, ih]
        exact or_left_comm
      · next hba =>
        have : a = b := before_total (Bool.eq_false_iff.2 hab) (Bool.eq_false_iff.2 hba)
        rw [List.mem_cons, this]
        exact (or_iff_right_of_imp .inl).symm

/-- Inserting keeps a list ascending. -/
theorem sorted_insertList {a : α} {l : List α} (h : l.Pairwise fun a b => before a b = true) :
    (insertList a l).Pairwise fun a b => before a b = true := by
  induction l with
  | nil => exact List.pairwise_singleton ..
  | cons b l ih =>
    have hb := List.pairwise_cons.1 h
    rw [insertList]
    split
    · next hab =>
      refine List.pairwise_cons.2 ⟨fun x hx => ?_, h⟩
      rcases List.mem_cons.1 hx with rfl | hx
      · exact hab
      · exact before_trans hab (hb.1 x hx)
    · split
      · next hba =>
        refine List.pairwise_cons.2 ⟨fun x hx => ?_, ih hb.2⟩
        rcases mem_insertList.1 hx with rfl | hx
        · exact hba
        · exact hb.1 x hx
      · exact h

/-- Adds a member. -/
def insert (s : SortedSet α) (a : α) : SortedSet α :=
  ⟨insertList a s.toList, sorted_insertList s.sorted⟩

/-- Inserting adds the value to the members. -/
@[simp] theorem mem_insert {s : SortedSet α} {a x : α} : x ∈ s.insert a ↔ x = a ∨ x ∈ s :=
  mem_insertList

/-- Adds all values of a list. -/
def insertAll (s : SortedSet α) (l : List α) : SortedSet α :=
  l.foldl insert s

/-- Inserting a list adds its members. -/
@[simp] theorem mem_insertAll {s : SortedSet α} {l : List α} {x : α} :
    x ∈ s.insertAll l ↔ x ∈ s ∨ x ∈ l := by
  induction l generalizing s with
  | nil => exact (or_iff_left List.not_mem_nil).symm
  | cons a l ih =>
    refine ih.trans ?_
    rw [mem_insert, List.mem_cons, ← or_assoc, or_comm (a := x = a)]

/-- The set of the values of a list. -/
def ofList (l : List α) : SortedSet α := empty.insertAll l

/-- The members are those of the list. -/
@[simp] theorem mem_ofList {l : List α} {x : α} : x ∈ ofList l ↔ x ∈ l :=
  mem_insertAll.trans (or_iff_right not_mem_empty)

/-- An ascending list is the list of the set of its values. -/
theorem toList_ofList {l : List α} (h : l.Pairwise fun a b => before a b = true) :
    (ofList l).toList = l :=
  list_ext (ofList l).sorted h fun _ => mem_ofList

/-- Merges two ascending lists, writing a common value once. -/
def mergeLists : List α → List α → List α
  | [], l => l
  | a :: k, [] => a :: k
  | a :: k, b :: l =>
    if before a b then a :: mergeLists k (b :: l)
    else if before b a then b :: mergeLists (a :: k) l
    else a :: mergeLists k l
termination_by k l => k.length + l.length

/-- Merging keeps the members of both lists. -/
theorem mem_mergeLists {k l : List α} {x : α} : x ∈ mergeLists k l ↔ x ∈ k ∨ x ∈ l := by
  fun_induction mergeLists k l with
  | case1 l => exact (or_iff_right List.not_mem_nil).symm
  | case2 a k => exact (or_iff_left List.not_mem_nil).symm
  | case3 a k b l _ ih => rw [List.mem_cons, ih, ← or_assoc, ← List.mem_cons]
  | case4 a k b l _ _ ih =>
    exact List.mem_cons.trans ((or_congr_right ih).trans
      (or_left_comm.trans (or_congr_right List.mem_cons.symm)))
  | case5 a k b l hab hba ih =>
    have hab : a = b := before_total (Bool.eq_false_iff.2 hab) (Bool.eq_false_iff.2 hba)
    subst hab
    rw [List.mem_cons, ih, List.mem_cons, List.mem_cons, ← or_or_distrib_left]

/-- Merging keeps lists ascending. -/
theorem sorted_mergeLists {k l : List α} (hk : k.Pairwise fun a b => before a b = true)
    (hl : l.Pairwise fun a b => before a b = true) :
    (mergeLists k l).Pairwise fun a b => before a b = true := by
  fun_induction mergeLists k l with
  | case1 l => exact hl
  | case2 a k => exact hk
  | case3 a k b l hab ih =>
    have ha := List.pairwise_cons.1 hk
    refine List.pairwise_cons.2 ⟨fun x hx => ?_, ih ha.2 hl⟩
    rcases mem_mergeLists.1 hx with hx | hx
    · exact ha.1 x hx
    · rcases List.mem_cons.1 hx with rfl | hx
      · exact hab
      · exact before_trans hab ((List.pairwise_cons.1 hl).1 x hx)
  | case4 a k b l _ hba ih =>
    have hb := List.pairwise_cons.1 hl
    refine List.pairwise_cons.2 ⟨fun x hx => ?_, ih hk hb.2⟩
    rcases mem_mergeLists.1 hx with hx | hx
    · rcases List.mem_cons.1 hx with rfl | hx
      · exact hba
      · exact before_trans hba ((List.pairwise_cons.1 hk).1 x hx)
    · exact hb.1 x hx
  | case5 a k b l hab hba ih =>
    have hab : a = b := before_total (Bool.eq_false_iff.2 hab) (Bool.eq_false_iff.2 hba)
    subst hab
    have ha := List.pairwise_cons.1 hk
    have hb := List.pairwise_cons.1 hl
    refine List.pairwise_cons.2 ⟨fun x hx => ?_, ih ha.2 hb.2⟩
    rcases mem_mergeLists.1 hx with hx | hx
    · exact ha.1 x hx
    · exact hb.1 x hx

/-- The members of either set. -/
def union (s t : SortedSet α) : SortedSet α :=
  ⟨mergeLists s.toList t.toList, sorted_mergeLists s.sorted t.sorted⟩

/-- The members of a union are those of both sets. -/
@[simp] theorem mem_union {s t : SortedSet α} {x : α} : x ∈ s.union t ↔ x ∈ s ∨ x ∈ t :=
  mem_mergeLists

/-- The members that pass a test. -/
def filter (s : SortedSet α) (p : α → Bool) : SortedSet α :=
  ⟨s.toList.filter p, s.sorted.filter p⟩

/-- Filtering keeps the members that pass. -/
@[simp] theorem mem_filter {s : SortedSet α} {p : α → Bool} {x : α} :
    x ∈ s.filter p ↔ x ∈ s ∧ p x = true :=
  List.mem_filter

/-- Whether there is no member. -/
def isEmpty (s : SortedSet α) : Bool := s.toList.isEmpty

/-- A set without members is the empty set. -/
theorem isEmpty_iff {s : SortedSet α} : s.isEmpty = true ↔ s = empty := by
  constructor
  · intro h
    refine ext_mem fun a => iff_of_false (fun ha => ?_) not_mem_empty
    rw [mem_iff, List.isEmpty_iff.1 h] at ha
    exact List.not_mem_nil ha
  · rintro rfl
    rfl

/-- A set that is not empty has a member. -/
theorem ne_empty_iff {s : SortedSet α} : s ≠ empty ↔ ∃ a, a ∈ s := by
  constructor
  · intro h
    refine List.exists_mem_of_ne_nil s.toList fun hnil => h (isEmpty_iff.1 ?_)
    rw [isEmpty, hnil]
    rfl
  · rintro ⟨a, ha⟩ rfl
    exact not_mem_empty ha

/-- The number of members. -/
def size (s : SortedSet α) : Nat := s.toList.length

/-- A set has as many members as a list without repetition that has the same members. -/
theorem size_eq_length {s : SortedSet α} {l : List α} (hl : l.Nodup) (h : ∀ a, a ∈ s ↔ a ∈ l) :
    s.size = l.length := by
  have hperm : s.toList.Perm l := (List.perm_ext_iff_of_nodup s.nodup hl).2 h
  exact hperm.length_eq

/-- Whether some member passes a test. -/
def any (s : SortedSet α) (p : α → Bool) : Bool := s.toList.any p

/-- Some member passes if the test finds one. -/
theorem any_eq_true {s : SortedSet α} {p : α → Bool} :
    s.any p = true ↔ ∃ x, x ∈ s ∧ p x = true :=
  List.any_eq_true

end SortedSet

/-- Sets are ordered by their listings. -/
instance {α : Type} [Sortable α] : Sortable (SortedSet α) :=
  Sortable.comap SortedSet.toList fun {s t} h => SortedSet.ext_mem fun a => by
    rw [SortedSet.mem_iff, SortedSet.mem_iff, h]

end LanguageForms
