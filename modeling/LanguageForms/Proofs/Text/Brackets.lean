/-
# The brackets that are open

Balanced characters have as many `)` as `(`, and no beginning of them has more
(`Balanced.count_take_le`), so a `)` behind balanced characters is not part of
anything balanced (`Balanced.not_closing`).  In the other direction every `(` among
balanced characters has its partner (`Balanced.exists_partner`).

`Unclosed ns cs` keeps account of the places of the `(` that are open when the
characters have been read, the last one first; reading one more character changes it
at the front only (`Unclosed.opening`, `Unclosed.closing`).  The front is the last
open `(` (`Unclosed.isLastOpen`).
-/
import LanguageForms.Text.Brackets

namespace LanguageForms
namespace Text

variable {cs ds inner rest : List Char} {c : Char} {ns : List Nat} {n : Nat}

/-! ### Counting brackets -/

/-- Every `(` has a `)`. -/
theorem Balanced.count_eq (h : Balanced cs) : cs.count '(' = cs.count ')' := by
  induction h with
  | nil => rfl
  | char hopening hclosing _ ih =>
    rw [List.count_cons_of_ne hopening, List.count_cons_of_ne hclosing, ih]
  | group _ _ ihi ihc =>
    simp [List.count_append, ihi, ihc]
    omega

/-- No beginning has more `)` than `(`. -/
theorem Balanced.count_take_le (h : Balanced cs) (n : Nat) :
    (cs.take n).count ')' ≤ (cs.take n).count '(' := by
  induction h generalizing n with
  | nil => simp
  | char hopening hclosing _ ih =>
    cases n with
    | zero => simp
    | succ n =>
      rw [List.take_succ_cons, List.count_cons_of_ne hopening, List.count_cons_of_ne hclosing]
      exact ih n
  | @group inner rest hi _ ihi ihc =>
    cases n with
    | zero => simp
    | succ n =>
      rw [List.cons_append, List.take_succ_cons, List.take_append]
      have hinner := ihi n
      cases hk : n - inner.length with
      | zero =>
        simp
        omega
      | succ k =>
        -- the group is over, and the beginning ends in the rest
        have hall : inner.take n = inner := List.take_of_length_le (by omega)
        have hequal := hi.count_eq
        have hrest := ihc k
        simp [List.count_append, hall]
        omega

/-- Behind balanced characters no `)` goes on with anything balanced. -/
theorem Balanced.not_closing (h : Balanced (inner ++ ')' :: rest)) : ¬ Balanced inner := by
  intro hinner
  have hcount := h.count_take_le (inner.length + 1)
  have htake : (inner ++ ')' :: rest).take (inner.length + 1) = inner ++ [')'] := by
    simp [List.take_append, List.take_of_length_le]
  have hequal := hinner.count_eq
  rw [htake] at hcount
  simp [List.count_append] at hcount
  omega

/-- Every `(` among balanced characters has its partner. -/
theorem Balanced.exists_partner (h : Balanced cs) (hcs : cs = ds ++ '(' :: rest) :
    ∃ inner rest', rest = inner ++ ')' :: rest' ∧ Balanced inner := by
  induction h generalizing ds rest with
  | nil => simp at hcs
  | char hopening _ _ ih =>
    cases ds with
    | nil => exact absurd (List.cons.inj hcs).1 hopening
    | cons d ds => exact ih (List.cons.inj hcs).2
  | @group inner after hi _ ihi ihc =>
    cases ds with
    | nil => exact ⟨inner, after, (List.cons.inj hcs).2.symm, hi⟩
    | cons d ds =>
      have htail : inner ++ ')' :: after = ds ++ '(' :: rest := (List.cons.inj hcs).2
      rcases List.append_eq_append_iff.1 htail with ⟨ks, rfl, hks⟩ | ⟨ks, rfl, hks⟩
      · -- behind the group
        cases ks with
        | nil => simp at hks
        | cons k ks => exact ihc (List.cons.inj hks).2
      · -- inside of the group
        cases ks with
        | nil => simp at hks
        | cons k ks =>
          obtain ⟨rfl, rfl⟩ := List.cons.inj hks
          obtain ⟨inner, rest', rfl, hinner⟩ := ihi rfl
          exact ⟨inner, rest' ++ ')' :: after, by simp, hinner⟩

/-- No `(` among the last characters is without a partner. -/
theorem Balanced.not_suffix (h : Balanced inner) : ¬ Balanced (ds ++ '(' :: inner) := by
  intro hds
  obtain ⟨before, after, rfl, hbefore⟩ := hds.exists_partner rfl
  exact h.not_closing hbefore

/-- Balanced characters at the end, behind a `(`, are determined. -/
theorem Balanced.eq_of_append_eq (h : Balanced inner) (hrest : Balanced rest)
    (heq : cs ++ '(' :: inner = ds ++ '(' :: rest) : cs = ds ∧ inner = rest := by
  rcases List.append_eq_append_iff.1 heq with ⟨ks, rfl, hks⟩ | ⟨ks, rfl, hks⟩
  · cases ks with
    | nil => exact ⟨(List.append_nil cs).symm, (List.cons.inj hks).2⟩
    | cons k ks =>
      obtain ⟨rfl, rfl⟩ := List.cons.inj hks
      exact absurd h hrest.not_suffix
  · cases ks with
    | nil => exact ⟨List.append_nil ds, (List.cons.inj hks).2.symm⟩
    | cons k ks =>
      obtain ⟨rfl, rfl⟩ := List.cons.inj hks
      exact absurd hrest h.not_suffix

/-! ### The account of open brackets -/

/-- The places of the `(` that are open, the last one first. -/
inductive Unclosed : List Nat → List Char → Prop where
  | nil {cs : List Char} : Balanced cs → Unclosed [] cs
  | cons {ns : List Nat} {cs ds : List Char} :
      Unclosed ns cs → Balanced ds → Unclosed (cs.length :: ns) (cs ++ '(' :: ds)

/-- Balanced characters open nothing. -/
theorem Unclosed.append (h : Unclosed ns cs) (hd : Balanced ds) : Unclosed ns (cs ++ ds) := by
  cases h with
  | nil hc => exact .nil (hc.append hd)
  | cons hout hin =>
    rw [List.append_assoc, List.cons_append]
    exact .cons hout (hin.append hd)

/-- A character that is no bracket leaves the account as it is. -/
theorem Unclosed.char (h : Unclosed ns cs) (hopening : c ≠ '(') (hclosing : c ≠ ')') :
    Unclosed ns (cs ++ [c]) :=
  h.append (.char hopening hclosing .nil)

/-- A `(` is open from then on. -/
theorem Unclosed.opening (h : Unclosed ns cs) : Unclosed (cs.length :: ns) (cs ++ ['(']) :=
  .cons h .nil

/-- A `)` closes the last `(` that is open. -/
theorem Unclosed.closing (h : Unclosed (n :: ns) cs) : Unclosed ns (cs ++ [')']) := by
  cases h with
  | @cons _ before inside hout hin =>
    have hgroup : Balanced ('(' :: inside ++ [')']) := .group hin .nil
    rw [List.append_assoc]
    exact hout.append hgroup

/-- **The front of the account** is the last `(` that is open. -/
theorem Unclosed.isLastOpen (h : Unclosed (n :: ns) cs) : IsLastOpen cs n := by
  cases h with
  | @cons _ before inside _ hin =>
    have hbehind : ∀ k, (before ++ '(' :: inside).drop (before.length + 1 + k) = inside.drop k := by
      intro k
      rw [Nat.add_assoc, List.drop_length_add_append, Nat.add_comm 1 k, List.drop_succ_cons]
    refine ⟨⟨by simp, fun inner rest hdrop => ?_⟩, fun k hk => ?_⟩
    · have hinside : inside = inner ++ ')' :: rest := (hbehind 0).symm.trans hdrop
      exact (hinside ▸ hin).not_closing
    · -- a later `(` stands among balanced characters
      refine Nat.le_of_not_lt fun hlt => ?_
      obtain ⟨j, rfl⟩ := Nat.exists_eq_add_of_lt hlt
      obtain ⟨hget, hopen⟩ := hk
      have hj : inside[j]? = some '(' := by
        have hshift : before.length + j + 1 - before.length = j + 1 := by omega
        rw [List.getElem?_append_right (by omega), hshift] at hget
        exact hget
      obtain ⟨hlen, hat⟩ := List.getElem?_eq_some_iff.1 hj
      have hsplit : inside = inside.take j ++ '(' :: inside.drop (j + 1) := by
        rw [← hat, List.getElem_cons_drop, List.take_append_drop]
      obtain ⟨inner, rest, hrest, hinner⟩ := hin.exists_partner hsplit
      have hdrop := hbehind (j + 1)
      rw [hrest] at hdrop
      exact hopen inner rest (by rw [← hdrop]; congr 1; omega) hinner

end Text
end LanguageForms
