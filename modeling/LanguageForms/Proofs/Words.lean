/-
# The order of words

Words are ordered by length, and words of one length alphabetically
(`Words.Precedes`).  Longer words can be compared by what they were before the last
symbol was appended: if one word precedes another one, then so it does with any
symbol behind both (`Precedes.concat`).

Of languages, one is earlier than another if some word of it precedes all words of
the other.  That is a strict order, so a list without repetition that is sorted by
the languages of its items is known by its members (`eq_of_pairwise_earlier`).
-/
import Mathlib.Data.List.Basic
import LanguageForms.Words

namespace LanguageForms

variable {α : Type} [Sortable α]

/-- Of two lists of one length the first stays before the second, whatever is appended. -/
theorem listBefore_append {k l m n : List α} (hlength : k.length = l.length)
    (h : listBefore k l = true) : listBefore (k ++ m) (l ++ n) = true := by
  induction k generalizing l with
  | nil =>
    obtain rfl : l = [] := List.length_eq_zero_iff.1 hlength.symm
    cases h
  | cons a k ih =>
    cases l with
    | nil => cases hlength
    | cons b l =>
      have hlength : k.length = l.length := by simpa using hlength
      rw [List.cons_append, List.cons_append, listBefore_cons]
      rcases listBefore_cons.1 h with hab | ⟨hab, hkl⟩
      · exact .inl hab
      · exact .inr ⟨hab, ih hlength hkl⟩

/-- Behind one list the order is that of what is appended. -/
theorem listBefore_append_left {k m n : List α} (h : listBefore m n = true) :
    listBefore (k ++ m) (k ++ n) = true := by
  induction k with
  | nil => exact h
  | cons a k ih => exact listBefore_cons.2 (.inr ⟨rfl, ih⟩)

namespace Words

variable {u v w : List Char} {c d : Char}

/-- The order of words is transitive. -/
theorem Precedes.trans (huv : Precedes u v) (hvw : Precedes v w) : Precedes u w := by
  rcases huv with huv | ⟨huv, hbefore⟩
  · rcases hvw with hvw | ⟨hvw, -⟩
    · exact .inl (Nat.lt_trans huv hvw)
    · exact .inl (hvw ▸ huv)
  · rcases hvw with hvw | ⟨hvw, hbefore'⟩
    · exact .inl (huv ▸ hvw)
    · exact .inr ⟨huv.trans hvw, before_trans hbefore hbefore'⟩

/-- No word precedes itself. -/
theorem not_precedes_self (w : List Char) : ¬ Precedes w w := by
  rintro (hlt | ⟨-, hbefore⟩)
  · exact Nat.lt_irrefl _ hlt
  · exact ne_of_before hbefore rfl

/-- Of two words not each precedes the other. -/
theorem Precedes.asymm (h : Precedes u v) : ¬ Precedes v u :=
  fun h' => not_precedes_self u (h.trans h')

/-- A word precedes those that go on where it ends. -/
theorem precedes_append (h : v ≠ []) : Precedes u (u ++ v) := by
  have hpos : 0 < v.length := List.length_pos_iff.2 h
  left
  rw [List.length_append]
  omega

/-- **What precedes stays before** if one symbol is appended to both words. -/
theorem Precedes.concat (h : Precedes u v) : Precedes (u ++ [c]) (v ++ [d]) := by
  rcases h with hlt | ⟨hlength, hbefore⟩
  · left
    simpa using hlt
  · exact .inr ⟨by simpa using hlength, listBefore_append hlength hbefore⟩

/-- Behind one word the order is that of the symbols. -/
theorem precedes_concat_of_before (h : before c d = true) : Precedes (u ++ [c]) (u ++ [d]) :=
  .inr ⟨by simp, listBefore_append_left (listBefore_cons.2 (.inl h))⟩

/-- The first word is the second one or precedes it. -/
def AtMost (u v : List Char) : Prop := u = v ∨ Precedes u v

/-- One more symbol behind both words keeps their order. -/
theorem AtMost.concat (h : AtMost u v) : AtMost (u ++ [c]) (v ++ [c]) :=
  h.imp (congrArg (· ++ [c])) Precedes.concat

/-- Being at most another word is transitive. -/
theorem AtMost.trans (huv : AtMost u v) (hvw : AtMost v w) : AtMost u w := by
  rcases huv with rfl | huv
  · exact hvw
  · rcases hvw with rfl | hvw
    · exact .inr huv
    · exact .inr (huv.trans hvw)

/-- What precedes a word precedes every word that is not before that one. -/
theorem Precedes.trans_atMost (huv : Precedes u v) (hvw : AtMost v w) : Precedes u w := by
  rcases hvw with rfl | hvw
  · exact huv
  · exact huv.trans hvw

/-! ### Languages in order -/

variable {P Q : List Char → Prop}

/-- Of two languages not each begins earlier than the other. -/
theorem Earlier.asymm (h : Earlier P Q) : ¬ Earlier Q P := by
  rintro ⟨v, hv, hlast⟩
  obtain ⟨u, hu, hfirst⟩ := h
  exact (hfirst v hv).asymm (hlast u hu)

/-- **Sorted by the languages of the items** a list is known by its members. -/
theorem eq_of_pairwise_earlier {β : Type} {language : β → List Char → Prop} {k l : List β}
    (hk : k.Pairwise fun x y => Earlier (language x) (language y))
    (hl : l.Pairwise fun x y => Earlier (language x) (language y)) (hmem : ∀ x, x ∈ k ↔ x ∈ l) :
    k = l := by
  have hne : ∀ {x y : β}, Earlier (language x) (language y) → x ≠ y := by
    rintro x y h rfl
    exact h.asymm h
  have hperm : k.Perm l := (List.perm_ext_iff_of_nodup (hk.imp hne) (hl.imp hne)).2 hmem
  exact hperm.eq_of_pairwise (fun x y _ _ hxy hyx => absurd hyx hxy.asymm) hk hl

end Words
end LanguageForms
