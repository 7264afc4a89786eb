/-
# Finite maps listed by key

A `SortedMap` is a list of entries in strictly ascending order of their keys, so
every key occurs once.  `get?_insert` and `get?_filter` say what a look-up finds
afterwards.
-/
import LanguageForms.Order

namespace LanguageForms

/-- A finite map, listed in ascending order of its keys. -/
structure SortedMap (κ ν : Type) [Sortable κ] where
  entries : List (κ × ν)
  sorted : entries.Pairwise fun p q => before p.1 q.1 = true
deriving DecidableEq

namespace SortedMap

variable {κ ν : Type} [Sortable κ] [DecidableEq κ]

/-- The map without entries. -/
def empty : SortedMap κ ν := ⟨[], .nil⟩

/-- The first value that a list of entries holds for a key. -/
def lookup (k : κ) : List (κ × ν) → Option ν
  | [] => none
  | p :: l => if p.1 = k then some p.2 else lookup k l

/-- The value of a key, if it has one. -/
def get? (m : SortedMap κ ν) (k : κ) : Option ν := lookup k m.entries

omit [Sortable κ] in
/-- What is looked up is an entry. -/
theorem mem_of_lookup {k : κ} {v : ν} {l : List (κ × ν)} (h : lookup k l = some v) :
    (k, v) ∈ l := by
  induction l with
  | nil => cases h
  | cons p l ih =>
    rw [lookup] at h
    split at h
    · next hk =>
      cases h
      cases hk
      exact List.mem_cons_self ..
    · exact List.mem_cons_of_mem _ (ih h)

/-- In an ascending list every entry is found by its key. -/
theorem lookup_of_mem {k : κ} {v : ν} {l : List (κ × ν)}
    (hl : l.Pairwise fun p q => before p.1 q.1 = true) (h : (k, v) ∈ l) :
    lookup k l = some v := by
  induction l with
  | nil => cases h
  | cons p l ih =>
    rw [List.pairwise_cons] at hl
    rw [lookup]
    rcases List.mem_cons.1 h with rfl | h
    · rw [if_pos rfl]
    · rw [if_neg (ne_of_before (hl.1 _ h)), ih hl.2 h]

/-- The value of a key is that of its entry. -/
theorem get?_eq_some_iff {m : SortedMap κ ν} {k : κ} {v : ν} :
    m.get? k = some v ↔ (k, v) ∈ m.entries :=
  ⟨mem_of_lookup, lookup_of_mem m.sorted⟩

/-- Writes an entry at its place in an ascending list, over an older one with the same key. -/
def insertList (k : κ) (v : ν) : List (κ × ν) → List (κ × ν)
  | [] => [(k, v)]
  | p :: l =>
    if before k p.1 then (k, v) :: p :: l
    else if before p.1 k then p :: insertList k v l
    else (k, v) :: l

omit [DecidableEq κ] in
/-- An inserted list has no keys but the new one and those of before. -/
theorem key_of_mem_insertList {k : κ} {v : ν} {p : κ × ν} {l : List (κ × ν)}
    (h : p ∈ insertList k v l) : p.1 = k ∨ p ∈ l := by
  induction l with
  | nil =>
    rw [insertList, List.mem_singleton] at h
    exact .inl (h ▸ rfl)
  | cons q l ih =>
    rw [insertList] at h
    split at h
    · rcases List.mem_cons.1 h with rfl | h
      · exact .inl rfl
      · exact .inr h
    · split at h
      · rcases List.mem_cons.1 h with rfl | h
        · exact .inr (List.mem_cons_self ..)
        · exact (ih h).imp id (List.mem_cons_of_mem _)
      · rcases List.mem_cons.1 h with rfl | h
        · exact .inl rfl
        · exact .inr (List.mem_cons_of_mem _ h)

omit [DecidableEq κ] in
/-- Inserting keeps the keys ascending. -/
theorem sorted_insertList {k : κ} {v : ν} {l : List (κ × ν)}
    (hl : l.Pairwise fun p q => before p.1 q.1 = true) :
    (insertList k v l).Pairwise fun p q => before p.1 q.1 = true := by
  induction l with
  | nil => exact List.pairwise_singleton ..
  | cons q l ih =>
    have hq := List.pairwise_cons.1 hl
    rw [insertList]
    split
    · next hkq =>
      refine List.pairwise_cons.2 ⟨fun x hx => ?_, hl⟩
      rcases List.mem_cons.1 hx with rfl | hx
      · exact hkq
      · exact before_trans hkq (hq.1 x hx)
    · next hkq =>
      split
      · next hqk =>
        refine List.pairwise_cons.2 ⟨fun x hx => ?_, ih hq.2⟩
        rcases key_of_mem_insertList hx with hxk | hx
        · exact hxk ▸ hqk
        · exact hq.1 x hx
      · next hqk =>
        have hk : k = q.1 := before_total (Bool.eq_false_iff.2 hkq) (Bool.eq_false_iff.2 hqk)
        exact List.pairwise_cons.2 ⟨fun x hx => hk ▸ hq.1 x hx, hq.2⟩

/-- Gives a key a value, whether or not it had one. -/
def insert (m : SortedMap κ ν) (k : κ) (v : ν) : SortedMap κ ν :=
  ⟨insertList k v m.entries, sorted_insertList m.sorted⟩

/-- Inserting changes what is looked up for its key only. -/
theorem lookup_insertList {k k' : κ} {v : ν} {l : List (κ × ν)}
    (hl : l.Pairwise fun p q => before p.1 q.1 = true) :
    lookup k' (insertList k v l) = if k = k' then some v else lookup k' l := by
  induction l with
  | nil => rfl
  | cons q l ih =>
    have hq := List.pairwise_cons.1 hl
    rw [insertList]
    split
    · rw [lookup]
    · next hkq =>
      split
      · next hqk =>
        rw [lookup, lookup, ih hq.2]
        split
        · next h =>
          rw [if_neg]
          rintro rfl
          exact ne_of_before hqk h
        · rfl
      · next hqk =>
        have hk : k = q.1 := before_total (Bool.eq_false_iff.2 hkq) (Bool.eq_false_iff.2 hqk)
        rw [lookup, lookup, ← hk]
        split <;> rfl

/-- Inserting changes the value of its key only. -/
@[simp] theorem get?_insert {m : SortedMap κ ν} {k k' : κ} {v : ν} :
    (m.insert k v).get? k' = if k = k' then some v else m.get? k' :=
  lookup_insertList m.sorted

/-- The entries whose key passes a test. -/
def filter (m : SortedMap κ ν) (p : κ → Bool) : SortedMap κ ν :=
  ⟨m.entries.filter fun e => p e.1, m.sorted.filter _⟩

omit [Sortable κ] in
/-- Of filtered entries those are looked up whose keys pass. -/
theorem lookup_filter {p : κ → Bool} {k : κ} {l : List (κ × ν)} :
    lookup k (l.filter fun e => p e.1) = if p k = true then lookup k l else none := by
  induction l with
  | nil => exact (ite_self none).symm
  | cons e l ih =>
    rw [List.filter_cons]
    split
    · next he =>
      rw [lookup, lookup]
      split
      · next hk => rw [if_pos (hk ▸ he)]
      · exact ih
    · next he =>
      rw [ih, lookup]
      split
      · next hp => rw [if_neg fun hk : e.1 = k => he (by rw [hk, hp])]
      · rfl

/-- A filtered map has the values of the keys that pass. -/
@[simp] theorem get?_filter {m : SortedMap κ ν} {p : κ → Bool} {k : κ} :
    (m.filter p).get? k = if p k = true then m.get? k else none :=
  lookup_filter

end SortedMap

end LanguageForms
