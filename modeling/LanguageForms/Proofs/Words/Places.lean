/-
# The words in their places

The word in place `n` is in every respect determined by its place.  Its last symbol
and the word before that are found by division (`wordAt_succ_eq_some_iff`), and all
that is said here of words and places is an induction along this.

Every word over the symbols has a place (`exists_wordAt`), and a word in a later place
comes later in the order of words (`precedes_of_wordAt`), so no word has two.  Without
symbols all places but the first are empty, with symbols none is
(`wordAt_eq_none_iff`).  The words of at most a given length are in the first places,
as many as `countUpTo` says (`length_le_iff`), and therefore `upTo` lists them
(`mem_upTo`).
-/
import LanguageForms.Proofs.Words
import Mathlib.Data.List.Induction
import Mathlib.Tactic.Ring

namespace LanguageForms
namespace Words

variable {symbols : List Char} {u v w : List Char} {length m n : Nat}

/-! ### Words and their places -/

/-- A word behind the first one ends with one of the symbols, behind a word in an earlier
place. -/
theorem wordAt_succ_eq_some_iff : wordAt symbols (n + 1) = some w ↔
    ∃ u c, w = u ++ [c] ∧ wordAt symbols (n / symbols.length) = some u ∧
      symbols[n % symbols.length]? = some c := by
  rw [wordAt_succ]
  simp only [Option.bind_eq_some_iff, Option.map_eq_some_iff]
  constructor
  · rintro ⟨c, hc, u, hu, rfl⟩
    exact ⟨u, c, rfl, hu, hc⟩
  · rintro ⟨u, c, rfl, hu, hc⟩
    exact ⟨c, hc, u, hu, rfl⟩

/-- The words are spelled with the symbols. -/
theorem mem_of_wordAt (h : wordAt symbols n = some w) : ∀ c ∈ w, c ∈ symbols := by
  induction n using Nat.strongRecOn generalizing w with
  | ind n ih =>
    cases n with
    | zero =>
      rw [wordAt_zero] at h
      obtain rfl := Option.some.inj h
      exact fun c hc => absurd hc List.not_mem_nil
    | succ n =>
      obtain ⟨u, c, rfl, hu, hc⟩ := wordAt_succ_eq_some_iff.1 h
      intro d hd
      rcases List.mem_append.1 hd with hd | hd
      · exact ih _ (Nat.lt_succ_of_le (Nat.div_le_self ..)) hu d hd
      · obtain rfl := List.mem_singleton.1 hd
        exact List.mem_of_getElem? hc

/-- **Every word over the symbols has a place.** -/
theorem exists_wordAt (h : ∀ c ∈ w, c ∈ symbols) : ∃ n, wordAt symbols n = some w := by
  induction w using List.reverseRecOn with
  | nil => exact ⟨0, wordAt_zero symbols⟩
  | append_singleton u c ih =>
    obtain ⟨m, hm⟩ := ih fun d hd => h d (List.mem_append_left _ hd)
    have hc : c ∈ symbols := h c (List.mem_append_right _ (List.mem_singleton.2 rfl))
    obtain ⟨i, hi, hget⟩ := List.mem_iff_getElem.1 hc
    obtain ⟨hdiv, hmod⟩ : (i + symbols.length * m) / symbols.length = m ∧
        (i + symbols.length * m) % symbols.length = i :=
      (Nat.div_mod_unique (Nat.zero_lt_of_lt hi)).2 ⟨rfl, hi⟩
    refine ⟨i + symbols.length * m + 1, wordAt_succ_eq_some_iff.2 ⟨u, c, rfl, ?_, ?_⟩⟩
    · rw [hdiv, hm]
    · rw [hmod, List.getElem?_eq_getElem hi, hget]

/-- There is a word in every place, but without symbols only in the first one. -/
theorem wordAt_eq_none_iff : wordAt symbols n = none ↔ symbols = [] ∧ n ≠ 0 := by
  constructor
  · intro h
    induction n using Nat.strongRecOn with
    | ind n ih =>
      cases n with
      | zero =>
        rw [wordAt_zero] at h
        cases h
      | succ n =>
        refine ⟨List.eq_nil_iff_length_eq_zero.2 (Nat.eq_zero_of_not_pos fun hpos => ?_),
          Nat.succ_ne_zero n⟩
        cases hu : wordAt symbols (n / symbols.length) with
        | none =>
          have hnil := (ih _ (Nat.lt_succ_of_le (Nat.div_le_self ..)) hu).1
          exact absurd hpos (by simp [hnil])
        | some u =>
          have hc := List.getElem?_eq_getElem (Nat.mod_lt n hpos)
          rw [wordAt_succ_eq_some_iff.2 ⟨u, _, rfl, hu, hc⟩] at h
          cases h
  · rintro ⟨rfl, hn⟩
    obtain ⟨n, rfl⟩ := Nat.exists_eq_succ_of_ne_zero hn
    rw [wordAt_succ]
    rfl

/-- **Words in later places come later in the order of words.** -/
theorem precedes_of_wordAt (hsorted : symbols.Pairwise fun a b => before a b = true) (hmn : m < n)
    (hu : wordAt symbols m = some u) (hv : wordAt symbols n = some v) : Precedes u v := by
  induction n using Nat.strongRecOn generalizing m u v with
  | ind n ih =>
    cases n with
    | zero => exact absurd hmn (Nat.not_lt_zero m)
    | succ n =>
      obtain ⟨v, d, rfl, hv, hd⟩ := wordAt_succ_eq_some_iff.1 hv
      cases m with
      | zero =>
        rw [wordAt_zero] at hu
        obtain rfl := Option.some.inj hu
        exact precedes_append (List.append_ne_nil_of_right_ne_nil _ (List.cons_ne_nil _ _))
      | succ m =>
        obtain ⟨u, c, rfl, hu, hc⟩ := wordAt_succ_eq_some_iff.1 hu
        have hle : m / symbols.length ≤ n / symbols.length :=
          Nat.div_le_div_right (Nat.le_of_lt (Nat.lt_of_succ_lt_succ hmn))
        rcases Nat.lt_or_eq_of_le hle with hlt | heq
        · exact (ih _ (Nat.lt_succ_of_le (Nat.div_le_self ..)) hlt hu hv).concat
        · -- the same word before the last symbol, so the last symbols are in order
          obtain rfl := Option.some.inj (hu.symm.trans (heq ▸ hv))
          have hlt : m % symbols.length < n % symbols.length := by
            have hm := Nat.mod_add_div m symbols.length
            have hn := Nat.mod_add_div n symbols.length
            rw [heq] at hm
            omega
          obtain ⟨hi, rfl⟩ := List.getElem?_eq_some_iff.1 hc
          obtain ⟨hj, rfl⟩ := List.getElem?_eq_some_iff.1 hd
          exact precedes_concat_of_before (List.pairwise_iff_getElem.1 hsorted _ _ hi hj hlt)

/-! ### The words of at most a given length -/

/-- Only the empty word has no symbols. -/
theorem countUpTo_zero (k : Nat) : countUpTo k 0 = 1 := by
  cases k <;> rfl

/-- A word of a greater length is the empty one, or one symbol behind a shorter word. -/
theorem countUpTo_succ (k length : Nat) :
    countUpTo k (length + 1) = k * countUpTo k length + 1 := by
  cases k with
  | zero => rw [Nat.zero_mul]; rfl
  | succ k =>
    induction length with
    | zero =>
      calc countUpTo (k + 1) 1 = 1 + (k + 1) ^ 1 := rfl
        _ = (k + 1) * 1 + 1 := by ring
        _ = (k + 1) * countUpTo (k + 1) 0 + 1 := rfl
    | succ length ih =>
      calc countUpTo (k + 1) (length + 2)
          = countUpTo (k + 1) (length + 1) + (k + 1) ^ (length + 2) := rfl
        _ = (k + 1) * countUpTo (k + 1) length + 1 + (k + 1) ^ (length + 2) := by rw [ih]
        _ = (k + 1) * (countUpTo (k + 1) length + (k + 1) ^ (length + 1)) + 1 := by ring
        _ = (k + 1) * countUpTo (k + 1) (length + 1) + 1 := rfl

/-- **The words of at most a given length** are those in the first places. -/
theorem length_le_iff (h : wordAt symbols n = some w) :
    w.length ≤ length ↔ n < countUpTo symbols.length length := by
  induction length generalizing n w with
  | zero =>
    rw [countUpTo_zero]
    cases n with
    | zero =>
      obtain rfl := Option.some.inj ((wordAt_zero symbols).symm.trans h)
      exact iff_of_true (Nat.le_refl 0) Nat.zero_lt_one
    | succ n =>
      obtain ⟨u, c, rfl, -, -⟩ := wordAt_succ_eq_some_iff.1 h
      simp
  | succ length ih =>
    rw [countUpTo_succ]
    cases n with
    | zero =>
      obtain rfl := Option.some.inj ((wordAt_zero symbols).symm.trans h)
      exact iff_of_true (Nat.zero_le _) (Nat.succ_pos _)
    | succ n =>
      obtain ⟨u, c, rfl, hu, hc⟩ := wordAt_succ_eq_some_iff.1 h
      have hpos : 0 < symbols.length :=
        Nat.zero_lt_of_lt (List.getElem?_eq_some_iff.1 hc).1
      rw [List.length_append, List.length_singleton, Nat.add_le_add_iff_right, ih hu,
        Nat.div_lt_iff_lt_mul hpos, Nat.mul_comm, Nat.add_lt_add_iff_right]

/-- There are words in all of these places. -/
theorem exists_wordAt_of_lt (h : n < countUpTo symbols.length length) :
    ∃ w, wordAt symbols n = some w ∧ w.length ≤ length := by
  cases hw : wordAt symbols n with
  | none =>
    obtain ⟨rfl, hn⟩ := wordAt_eq_none_iff.1 hw
    have hone : countUpTo 0 length = 1 := by cases length <;> rfl
    exact absurd (Nat.lt_one_iff.1 (hone ▸ h)) hn
  | some w => exact ⟨w, rfl, (length_le_iff hw).2 h⟩

/-- Behind the first place there are no words without symbols. -/
theorem filterMap_placesWithin (symbols : List Char) (count : Nat) :
    (List.range (placesWithin symbols.length count)).filterMap (wordAt symbols) =
      (List.range count).filterMap (wordAt symbols) := by
  cases symbols with
  | cons c symbols => rfl
  | nil =>
    cases count with
    | zero => rfl
    | succ count =>
      have hnone : ∀ n ∈ List.range count, wordAt [] (n + 1) = none := fun n _ =>
        wordAt_eq_none_iff.2 ⟨rfl, Nat.succ_ne_zero n⟩
      have hone : placesWithin ([] : List Char).length (count + 1) = 1 :=
        Nat.min_eq_left (Nat.le_add_left 1 count)
      have hrest : ((List.range count).map Nat.succ).filterMap (wordAt []) = [] := by
        rw [List.filterMap_map]
        exact List.filterMap_eq_nil_iff.2 hnone
      have hfirst : [0].filterMap (wordAt []) = [[]] := by
        rw [List.filterMap_cons, wordAt_zero]
        rfl
      rw [hone, List.range_succ_eq_map (n := count), List.filterMap_cons, wordAt_zero, hrest]
      exact hfirst

/-- The words up to a length are those in the first places. -/
theorem upTo_eq_filterMap (symbols : SortedSet Char) (length : Nat) : upTo symbols length =
    (List.range (countUpTo symbols.size length)).filterMap (wordAt symbols.toList) :=
  filterMap_placesWithin symbols.toList _

/-- **The listed words** are those over the symbols of at most the given length. -/
theorem mem_upTo {symbols : SortedSet Char} :
    w ∈ upTo symbols length ↔ (∀ c ∈ w, c ∈ symbols) ∧ w.length ≤ length := by
  rw [upTo_eq_filterMap, List.mem_filterMap]
  constructor
  · rintro ⟨n, hn, hw⟩
    exact ⟨mem_of_wordAt hw, (length_le_iff hw).2 (List.mem_range.1 hn)⟩
  · rintro ⟨hsymbols, hlength⟩
    obtain ⟨n, hw⟩ := exists_wordAt hsymbols
    exact ⟨n, List.mem_range.2 ((length_le_iff hw).1 hlength), hw⟩

/-- The words up to a length are listed in order. -/
theorem pairwise_upTo (symbols : SortedSet Char) (length : Nat) :
    (upTo symbols length).Pairwise Precedes := by
  rw [upTo_eq_filterMap, List.pairwise_filterMap]
  exact List.pairwise_lt_range.imp fun hlt u hu v hv =>
    precedes_of_wordAt symbols.sorted hlt hu hv

end Words
end LanguageForms
