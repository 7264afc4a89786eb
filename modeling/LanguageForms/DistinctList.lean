/-
# Lists that keep the first occurrence

A `DistinctList` remembers the order in which its members were first named and
names none of them twice.  The states of an automaton and the symbols of a
grammar are listed this way.
-/

namespace LanguageForms

/-- A finite set, listed in the order in which its members came in. -/
structure DistinctList (α : Type) where
  toList : List α
  nodup : toList.Nodup
deriving DecidableEq

namespace DistinctList

variable {α : Type}

instance : Membership α (DistinctList α) := ⟨fun s a => a ∈ s.toList⟩

/-- A member is a member of the list. -/
theorem mem_iff {a : α} {s : DistinctList α} : a ∈ s ↔ a ∈ s.toList := Iff.rfl

/-- The list determines the value. -/
theorem ext_toList {s t : DistinctList α} (h : s.toList = t.toList) : s = t := by
  cases s
  cases t
  cases h
  rfl

/-- The number of members. -/
def size (s : DistinctList α) : Nat := s.toList.length

/-- The list without members. -/
def empty : DistinctList α := ⟨[], .nil⟩

variable [DecidableEq α]

instance (a : α) (s : DistinctList α) : Decidable (a ∈ s) :=
  inferInstanceAs (Decidable (a ∈ s.toList))

/-- Appends a value, unless it is a member already. -/
def insert (s : DistinctList α) (a : α) : DistinctList α :=
  if h : a ∈ s then s
  else ⟨s.toList ++ [a],
    (List.perm_append_singleton a s.toList).nodup_iff.2 (List.nodup_cons.2 ⟨h, s.nodup⟩)⟩

/-- A member is not inserted again. -/
theorem insert_of_mem {s : DistinctList α} {a : α} (h : a ∈ s) : s.insert a = s := dif_pos h

/-- A value that is no member comes last. -/
theorem toList_insert {s : DistinctList α} {a : α} (h : ¬ a ∈ s) :
    (s.insert a).toList = s.toList ++ [a] := by
  rw [insert, dif_neg h]

/-- Inserting adds the value to the members. -/
@[simp] theorem mem_insert {s : DistinctList α} {a x : α} : x ∈ s.insert a ↔ x ∈ s ∨ x = a := by
  by_cases h : a ∈ s
  · rw [insert_of_mem h]
    refine ⟨.inl, ?_⟩
    rintro (hx | rfl)
    · exact hx
    · exact h
  · rw [mem_iff, toList_insert h, List.mem_append, List.mem_singleton, mem_iff]

/-- Appends the values of a list, each unless it is a member by then. -/
def insertAll (s : DistinctList α) (l : List α) : DistinctList α :=
  l.foldl insert s

/-- Inserting a list adds its members. -/
@[simp] theorem mem_insertAll {s : DistinctList α} {l : List α} {x : α} :
    x ∈ s.insertAll l ↔ x ∈ s ∨ x ∈ l := by
  induction l generalizing s with
  | nil => exact (or_iff_left List.not_mem_nil).symm
  | cons a l ih =>
    refine ih.trans ?_
    rw [mem_insert, List.mem_cons, or_assoc]

/-- Nothing comes in that is there already. -/
theorem insertAll_of_forall_mem {s : DistinctList α} {l : List α} (h : ∀ a ∈ l, a ∈ s) :
    s.insertAll l = s := by
  induction l with
  | nil => rfl
  | cons a l ih =>
    have ha : s.insert a = s := insert_of_mem (h a List.mem_cons_self)
    show (s.insert a).insertAll l = s
    rw [ha]
    exact ih fun b hb => h b (List.mem_cons_of_mem a hb)

/-- Two lists can be inserted one after the other. -/
theorem insertAll_append (s : DistinctList α) (l m : List α) :
    s.insertAll (l ++ m) = (s.insertAll l).insertAll m :=
  List.foldl_append

/-- What is there already stays in front. -/
theorem toList_prefix_insertAll (s : DistinctList α) (l : List α) :
    s.toList <+: (s.insertAll l).toList := by
  induction l generalizing s with
  | nil => exact List.prefix_refl _
  | cons a l ih =>
    have ha : s.toList <+: (s.insert a).toList := by
      by_cases hmem : a ∈ s
      · simp [insert_of_mem hmem]
      · simp [toList_insert hmem]
    exact ha.trans (ih (s.insert a))

/-- The values of a list, each at its first occurrence. -/
def ofList (l : List α) : DistinctList α := empty.insertAll l

/-- The members are those of the list. -/
@[simp] theorem mem_ofList {l : List α} {x : α} : x ∈ ofList l ↔ x ∈ l :=
  mem_insertAll.trans (or_iff_right List.not_mem_nil)

/-- Behind what is there already come the other values, each at its first occurrence. -/
theorem toList_insertAll (s : DistinctList α) (l : List α) :
    (s.insertAll l).toList = s.toList ++ (l.removeAll s.toList).eraseDups := by
  induction l generalizing s with
  | nil => exact (List.append_nil _).symm
  | cons a l ih =>
    show ((s.insert a).insertAll l).toList = _
    rw [ih]
    by_cases h : a ∈ s
    · have hskip : (a :: l).removeAll s.toList = l.removeAll s.toList := by
        simp [List.removeAll, mem_iff.1 h]
      rw [insert_of_mem h, hskip]
    · have hkeep : (a :: l).removeAll s.toList = a :: l.removeAll s.toList := by
        simp [List.removeAll, mt mem_iff.2 h]
      have hrest : l.removeAll (s.toList ++ [a]) =
          (l.removeAll s.toList).filter fun b => !b == a := by
        simp [List.removeAll, List.filter_filter, Bool.and_comm, Bool.beq_eq_decide_eq]
      rw [toList_insert h, hkeep, hrest, List.eraseDups_cons, List.append_assoc]
      rfl

/-- The first occurrences are what is left when repetitions are erased. -/
theorem toList_ofList_eq_eraseDups (l : List α) : (ofList l).toList = l.eraseDups := by
  have hall : l.removeAll (empty : DistinctList α).toList = l := by simp [List.removeAll, empty]
  rw [ofList, toList_insertAll, hall]
  rfl

/-- A list without repetition is kept as it is. -/
theorem toList_insertAll_of_nodup {s : DistinctList α} {l : List α} (h : (s.toList ++ l).Nodup) :
    (s.insertAll l).toList = s.toList ++ l := by
  induction l generalizing s with
  | nil => exact (List.append_nil _).symm
  | cons a l ih =>
    have ha : ¬ a ∈ s := fun hm =>
      (List.nodup_append.1 h).2.2 a hm a (List.mem_cons_self ..) rfl
    have hs := toList_insert ha
    show ((s.insert a).insertAll l).toList = _
    rw [ih, hs, List.append_assoc]
    · rfl
    · rw [hs, List.append_assoc]
      exact h

/-- A list without repetition is taken over as it is. -/
theorem toList_ofList {l : List α} (h : l.Nodup) : (ofList l).toList = l :=
  toList_insertAll_of_nodup (s := empty) h

/-- Whether two lists have the same members, in whatever order. -/
def sameMembers (s t : DistinctList α) : Bool :=
  s.size == t.size && s.toList.all fun a => decide (a ∈ t)

/-- Takes a member out, the others keep their order. -/
def erase (s : DistinctList α) (a : α) : DistinctList α :=
  ⟨s.toList.filter fun x => decide (x ≠ a), s.nodup.filter _⟩

/-- Taking a value out leaves the other members. -/
@[simp] theorem mem_erase {s : DistinctList α} {a x : α} : x ∈ s.erase a ↔ x ∈ s ∧ x ≠ a := by
  rw [mem_iff, erase, List.mem_filter, decide_eq_true_eq]
  exact Iff.rfl

end DistinctList

end LanguageForms
