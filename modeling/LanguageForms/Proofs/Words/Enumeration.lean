/-
# The enumeration gives every word once

The places of the symbols of a word are the digits of the word's place
(`digitsAt`, `mapM_digitsAt`).  Moving the last of them on, with a carry, counts one
further: behind other places the last one moves alone, or it goes back to the first
symbol and the others move as if they stood alone (`increment_concat`), so the places
of the next word are the digits of the next place (`successor_digitsAt`).

What is left of an enumeration behind `n` words then gives the word in place `n`
(`next?_behind`), and all that is known of words and their places is true of the words
as they are given (`enumeration_listsAll`).
-/
import LanguageForms.Automaton.Closure
import LanguageForms.Proofs.Words.Places
import LanguageForms.Words.Enumeration

namespace LanguageForms
namespace Words

variable {symbols : SortedSet Char} {w : List Char} {k m n : Nat}

/-! ### Digits -/

/-- The places of the symbols of the word in a given place, over `k` symbols. -/
def digitsAt (k : Nat) : Nat → List Nat
  | 0 => []
  | n + 1 => digitsAt k (n / k) ++ [n % k]
decreasing_by exact Nat.lt_succ_of_le (Nat.div_le_self n k)

/-- The first word has no digits. -/
theorem digitsAt_zero (k : Nat) : digitsAt k 0 = [] := by rw [digitsAt]

/-- The last digit is a remainder, and the others are those of a smaller place. -/
theorem digitsAt_succ (k n : Nat) : digitsAt k (n + 1) = digitsAt k (n / k) ++ [n % k] := by
  rw [digitsAt]

/-- Behind other places the last one moves alone, or goes back and lets the others move. -/
theorem increment_concat (k : Nat) (ds : List Nat) (d : Nat) : increment k (ds ++ [d]) =
    if d + 1 < k then some (ds ++ [d + 1]) else (increment k ds).map (· ++ [0]) := by
  induction ds with
  | nil => simp [increment]
  | cons b ds ih =>
    rw [List.cons_append, increment, ih]
    by_cases hd : d + 1 < k
    · simp [hd]
    · cases h : increment k ds with
      | none =>
        by_cases hb : b + 1 < k <;> simp [hd, hb, increment, h, List.replicate_succ']
      | some ds' => simp [hd, increment, h]

/-- Places at the last of two symbols go back to the first, and the one before them moves. -/
example : increment 2 [0, 1, 1] = some [1, 0, 0] := rfl

/-- The last digit is counted up, or it starts again and the others are counted up. -/
theorem successor_concat (k : Nat) (ds : List Nat) (d : Nat) : successor k (ds ++ [d]) =
    if d + 1 < k then ds ++ [d + 1] else successor k ds ++ [0] := by
  rw [successor, successor, increment_concat]
  by_cases hd : d + 1 < k
  · simp [hd]
  · cases increment k ds with
    | none => simp [hd, List.replicate_succ']
    | some ds' => simp [hd]

/-- **The next places are those of the word in the next place.** -/
theorem successor_digitsAt (hk : 0 < k) (n : Nat) :
    successor k (digitsAt k n) = digitsAt k (n + 1) := by
  induction n using Nat.strongRecOn with
  | ind n ih =>
    cases n with
    | zero => simp [digitsAt, successor, increment, Nat.zero_mod]
    | succ n =>
      have hmod : n % k < k := Nat.mod_lt n hk
      have hsplit : n % k + k * (n / k) = n := Nat.mod_add_div n k
      rw [digitsAt_succ, digitsAt_succ, successor_concat]
      split
      · next hlt =>
        obtain ⟨hdiv, hrest⟩ : (n + 1) / k = n / k ∧ (n + 1) % k = n % k + 1 :=
          (Nat.div_mod_unique hk).2 ⟨by omega, hlt⟩
        rw [hdiv, hrest]
      · next hge =>
        obtain ⟨hdiv, hrest⟩ : (n + 1) / k = n / k + 1 ∧ (n + 1) % k = 0 :=
          (Nat.div_mod_unique hk).2 ⟨by rw [Nat.mul_add_one]; omega, hk⟩
        rw [hdiv, hrest, ih (n / k) (Nat.lt_succ_of_le (Nat.div_le_self ..))]

/-- The symbols at these places spell the word. -/
theorem mapM_digitsAt (symbols : List Char) (n : Nat) :
    (digitsAt symbols.length n).mapM (fun d => symbols[d]?) = wordAt symbols n := by
  induction n using Nat.strongRecOn with
  | ind n ih =>
    cases n with
    | zero => rw [digitsAt_zero, wordAt_zero]; rfl
    | succ n =>
      rw [digitsAt_succ, wordAt_succ, List.mapM_append, List.mapM_cons, List.mapM_nil,
        ih (n / symbols.length) (Nat.lt_succ_of_le (Nat.div_le_self ..))]
      cases wordAt symbols (n / symbols.length) with
      | none => simp
      | some u => cases symbols[n % symbols.length]? <;> rfl

/-! ### The enumeration -/

namespace Enumeration

/-- What is left of an enumeration when it has been asked for a number of words. -/
def behind (symbols : SortedSet Char) (n : Nat) : Enumeration :=
  ⟨symbols, if symbols.isEmpty ∧ n ≠ 0 then none else some (digitsAt symbols.size n)⟩

/-- **Asking for one more word** gives the one in the next place, if there is one. -/
theorem next?_behind (symbols : SortedSet Char) (n : Nat) : (behind symbols n).next? =
    (wordAt symbols.toList n).map fun w => (w, behind symbols (n + 1)) := by
  by_cases hend : symbols.isEmpty ∧ n ≠ 0
  · have hnone : wordAt symbols.toList n = none :=
      wordAt_eq_none_iff.2 ⟨List.isEmpty_iff.1 hend.1, hend.2⟩
    rw [hnone, next?, behind, if_pos hend]
    rfl
  · rw [next?, behind, if_neg hend]
    show ((digitsAt symbols.toList.length n).mapM fun d => symbols.toList[d]?).bind _ = _
    rw [mapM_digitsAt]
    cases wordAt symbols.toList n with
    | none => rfl
    | some w =>
      by_cases hempty : symbols.isEmpty
      · simp [behind, hempty]
      · have hpos : 0 < symbols.size :=
          List.length_pos_iff.2 fun hnil => hempty (List.isEmpty_iff.2 hnil)
        simp [behind, hempty, successor_digitsAt hpos]

/-- **The words that are given one after the other** are those in the places in order. -/
theorem nth_behind (symbols : SortedSet Char) (m n : Nat) :
    (behind symbols m).nth n = wordAt symbols.toList (m + n) := by
  induction n generalizing m with
  | zero =>
    rw [nth, next?_behind, Option.map_map, Nat.add_zero]
    exact Option.map_id'
  | succ n ih =>
    rw [nth, next?_behind]
    cases hm : wordAt symbols.toList m with
    | none =>
      have hnil := (wordAt_eq_none_iff.1 hm).1
      exact (wordAt_eq_none_iff.2 ⟨hnil, Nat.succ_ne_zero (m + n)⟩).symm
    | some w =>
      refine (ih (m + 1)).trans ?_
      rw [Nat.add_right_comm, Nat.add_assoc]

/-- An enumeration begins behind no words. -/
theorem ofSymbols_eq_behind (cs : List Char) : ofSymbols cs = behind (.ofList cs) 0 := by
  rw [ofSymbols, behind, if_neg fun h => h.2 rfl, digitsAt_zero]

/-- The enumeration gives the word in every place. -/
theorem nth_ofSymbols (cs : List Char) (n : Nat) :
    (ofSymbols cs).nth n = wordAt (SortedSet.ofList cs).toList n := by
  rw [ofSymbols_eq_behind, nth_behind, Nat.zero_add]

/-- Only these words are taken. -/
theorem TakesWhile.unique {test : List Char → Bool} {e : Enumeration} {us vs : List (List Char)}
    (hus : TakesWhile test e us) (hvs : TakesWhile test e vs) : us = vs := by
  induction hus generalizing vs with
  | done hend =>
    cases hvs with
    | done => rfl
    | stop => rfl
    | take hnext => cases hend.symm.trans hnext
  | stop hnext hfail =>
    cases hvs with
    | done => rfl
    | stop => rfl
    | take hnext' hpass =>
      cases hnext.symm.trans hnext'
      cases hfail.symm.trans hpass
  | take hnext hpass _ ih =>
    cases hvs with
    | done hend => cases hend.symm.trans hnext
    | stop hnext' hfail =>
      cases hnext.symm.trans hnext'
      cases hfail.symm.trans hpass
    | take hnext' _ hrest =>
      cases hnext.symm.trans hnext'
      rw [ih hrest]

/-- If the words in some places pass a test, and the one behind them does not or is missing, they
are what is taken. -/
theorem takesWhile_behind {symbols : SortedSet Char} {test : List Char → Bool} (count : Nat)
    (hpass : ∀ i, i < count → ∃ w, wordAt symbols.toList (n + i) = some w ∧ test w = true)
    (hfail : ∀ w, wordAt symbols.toList (n + count) = some w → test w = false) :
    TakesWhile test (behind symbols n)
      ((List.range' n count).filterMap (wordAt symbols.toList)) := by
  induction count generalizing n with
  | zero =>
    cases hw : wordAt symbols.toList n with
    | none => exact .done (by rw [next?_behind, hw]; rfl)
    | some w => exact .stop (by rw [next?_behind, hw]; rfl) (hfail w hw)
  | succ count ih =>
    obtain ⟨w, hw, hpassed⟩ := hpass 0 (Nat.succ_pos count)
    have hnext : (behind symbols n).next? = some (w, behind symbols (n + 1)) := by
      rw [next?_behind, show wordAt symbols.toList n = some w from hw]
      rfl
    rw [List.range'_succ, List.filterMap_cons, show wordAt symbols.toList n = some w from hw]
    refine .take hnext hpassed (ih (fun i hi => ?_) fun v hv => hfail v ?_)
    · rw [Nat.add_right_comm]
      exact hpass (i + 1) (Nat.succ_lt_succ hi)
    · rw [← hv, Nat.add_right_comm]
      rfl

/-- **The words of at most a given length** are taken in front of the first longer one. -/
theorem takesWhile_upTo (symbols : SortedSet Char) (length : Nat) :
    TakesWhile (fun w => decide (w.length ≤ length)) (behind symbols 0) (upTo symbols length) := by
  rw [upTo_eq_filterMap, List.range_eq_range']
  refine takesWhile_behind _ (fun i hi => ?_) fun w hw => ?_
  · obtain ⟨w, hw, hlength⟩ := exists_wordAt_of_lt hi
    rw [Nat.zero_add]
    exact ⟨w, hw, decide_eq_true hlength⟩
  · rw [Nat.zero_add] at hw
    exact decide_eq_false fun hlength => Nat.lt_irrefl _ ((length_le_iff hw).1 hlength)

end Enumeration

/-! ### All words -/

/-- All words over some symbols, each in one place, in the order of words. -/
structure ListsAll (cs : List Char) (item : Nat → Option (List Char)) : Prop where
  spelled : ∀ n w, item n = some w → ∀ c ∈ w, c ∈ cs
  once : ∀ w, (∀ c ∈ w, c ∈ cs) → ∃! n, item n = some w
  ordered : ∀ m n u v, m < n → item m = some u → item n = some v → Precedes u v
  ends : cs = [] → item 0 = some [] ∧ ∀ n, item (n + 1) = none
  endless : cs ≠ [] → ∀ n, item n ≠ none

/-- **The words in all places** are all words, once and in order. -/
theorem listsAll_wordAt (cs : List Char) :
    ListsAll cs (wordAt (SortedSet.ofList cs).toList) where
  spelled n w hw c hc := SortedSet.mem_ofList.1 (mem_of_wordAt hw c hc)
  once w hw := by
    have hmem : ∀ c ∈ w, c ∈ (SortedSet.ofList cs).toList := fun c hc =>
      SortedSet.mem_ofList.2 (hw c hc)
    obtain ⟨n, hn⟩ := exists_wordAt hmem
    refine ⟨n, hn, fun m hm => ?_⟩
    rcases Nat.lt_trichotomy m n with hlt | heq | hlt
    · exact absurd (precedes_of_wordAt (SortedSet.sorted _) hlt hm hn) (not_precedes_self w)
    · exact heq
    · exact absurd (precedes_of_wordAt (SortedSet.sorted _) hlt hn hm) (not_precedes_self w)
  ordered m n u v hlt hu hv := precedes_of_wordAt (SortedSet.sorted _) hlt hu hv
  ends := by
    rintro rfl
    exact ⟨wordAt_zero _, fun n => wordAt_eq_none_iff.2 ⟨rfl, Nat.succ_ne_zero n⟩⟩
  endless hne n hn := by
    obtain ⟨c, hc⟩ := List.exists_mem_of_ne_nil cs hne
    have hmem : c ∈ (SortedSet.ofList cs).toList := SortedSet.mem_ofList.2 hc
    rw [(wordAt_eq_none_iff.1 hn).1] at hmem
    exact List.not_mem_nil hmem

/-- **The enumeration gives all words over the symbols**, each once and in order: it ends after
the empty word if there are no symbols, and never otherwise.  So the words in front of the first
one that is too long, filtered by an automaton, are the words of at most this length that it
accepts. -/
theorem enumeration_listsAll (cs : List Char) (a : Automaton) (length : Nat) :
    ListsAll cs (Enumeration.ofSymbols cs).nth ∧
      (∀ count, first (.ofList cs) count =
        (List.range count).filterMap (Enumeration.ofSymbols cs).nth) ∧
      (∀ words, Enumeration.TakesWhile (fun w => decide (w.length ≤ length))
        (Enumeration.ofSymbols a.alphabet.toList) words ↔ words = upTo a.alphabet length) ∧
      ((upTo a.alphabet length).filter a.accepts).Pairwise Precedes ∧
      ∀ w, w ∈ (upTo a.alphabet length).filter a.accepts ↔
        a.accepts w = true ∧ (∀ c ∈ w, c ∈ a.alphabet) ∧ w.length ≤ length := by
  have hnth : (Enumeration.ofSymbols cs).nth = wordAt (SortedSet.ofList cs).toList :=
    funext (Enumeration.nth_ofSymbols cs)
  have halphabet : SortedSet.ofList a.alphabet.toList = a.alphabet :=
    SortedSet.ext_mem fun c => SortedSet.mem_ofList
  refine ⟨hnth ▸ listsAll_wordAt cs, fun count => ?_, fun words => ?_, ?_, fun w => ?_⟩
  · rw [hnth]
    exact filterMap_placesWithin _ count
  · rw [Enumeration.ofSymbols_eq_behind, halphabet]
    have htaken := Enumeration.takesWhile_upTo a.alphabet length
    exact ⟨fun h => h.unique htaken, fun h => h ▸ htaken⟩
  · exact (pairwise_upTo a.alphabet length).filter _
  · rw [List.mem_filter, mem_upTo, and_comm]

end Words
end LanguageForms
