/-
# The order in which things are listed

Sets of symbols, states and transitions are always listed in one fixed order.
`Sortable` names that order as a Boolean test together with the three laws of a
strict linear order, so that a set has exactly one listing.

| type | order |
| --- | --- |
| `Char` | by code point |
| `Nat` | by size |
| `String` | by code points, a proper beginning first |
| `List α` | lexicographic, a proper beginning first |
| `α × β` | lexicographic |
-/

namespace LanguageForms

/-- A type whose values come in a fixed strict linear order. -/
class Sortable (α : Type) where
  /-- Whether the first value is listed before the second. -/
  before : α → α → Bool
  before_irrefl : ∀ a, before a a = false
  before_trans : ∀ {a b c}, before a b = true → before b c = true → before a c = true
  before_total : ∀ {a b}, before a b = false → before b a = false → a = b

export Sortable (before before_irrefl before_trans before_total)

section

variable {α β : Type} [Sortable α] [Sortable β]

/-- Of two values not each comes before the other. -/
theorem before_asymm {a b : α} (h : before a b = true) : before b a = false := by
  cases hb : before b a with
  | false => rfl
  | true => rw [← before_irrefl a, before_trans h hb]

/-- What comes before another value is not equal to it. -/
theorem ne_of_before {a b : α} (h : before a b = true) : a ≠ b := by
  intro hab
  rw [hab, before_irrefl] at h
  exact Bool.noConfusion h

/-- The lexicographic order on lists. -/
def listBefore : List α → List α → Bool
  | [], [] => false
  | [], _ :: _ => true
  | _ :: _, [] => false
  | a :: as, b :: bs => before a b || (!before b a && listBefore as bs)

/-- No list comes before itself. -/
theorem listBefore_irrefl (l : List α) : listBefore l l = false := by
  induction l with
  | nil => rfl
  | cons a l ih => simp only [listBefore, before_irrefl, ih, Bool.and_false, Bool.or_false]

/-- Lists are compared at their heads, and at their tails if the heads are equal. -/
theorem listBefore_cons {a b : α} {as bs : List α} :
    listBefore (a :: as) (b :: bs) = true ↔
      before a b = true ∨ (a = b ∧ listBefore as bs = true) := by
  simp only [listBefore, Bool.or_eq_true, Bool.and_eq_true, Bool.not_eq_true']
  constructor
  · rintro (h | ⟨h, hl⟩)
    · exact .inl h
    · cases hab : before a b with
      | true => exact .inl rfl
      | false => exact .inr ⟨before_total hab h, hl⟩
  · rintro (h | ⟨rfl, hl⟩)
    · exact .inl h
    · exact .inr ⟨before_irrefl a, hl⟩

/-- The order of lists is transitive. -/
theorem listBefore_trans {k l m : List α} (hkl : listBefore k l = true)
    (hlm : listBefore l m = true) : listBefore k m = true := by
  induction k generalizing l m with
  | nil =>
    cases m with
    | nil => cases l <;> simp [listBefore] at hlm hkl
    | cons c m => rfl
  | cons a k ih =>
    cases l with
    | nil => simp [listBefore] at hkl
    | cons b l =>
      cases m with
      | nil => simp [listBefore] at hlm
      | cons c m =>
        rw [listBefore_cons] at hkl hlm ⊢
        rcases hkl with hab | ⟨rfl, hkl⟩
        · rcases hlm with hbc | ⟨rfl, -⟩
          · exact .inl (before_trans hab hbc)
          · exact .inl hab
        · rcases hlm with hbc | ⟨rfl, hlm⟩
          · exact .inl hbc
          · exact .inr ⟨rfl, ih hkl hlm⟩

/-- Lists of which none comes before the other are equal. -/
theorem listBefore_total {k l : List α} (hkl : listBefore k l = false)
    (hlk : listBefore l k = false) : k = l := by
  induction k generalizing l with
  | nil => cases l with
    | nil => rfl
    | cons b l => simp [listBefore] at hkl
  | cons a k ih => cases l with
    | nil => simp [listBefore] at hlk
    | cons b l =>
      simp only [listBefore, Bool.or_eq_false_iff] at hkl hlk
      obtain ⟨hab, hkl⟩ := hkl
      obtain ⟨hba, hlk⟩ := hlk
      rw [hba] at hkl
      rw [hab] at hlk
      simp only [Bool.not_false, Bool.true_and] at hkl hlk
      rw [before_total hab hba, ih hkl hlk]

instance : Sortable (List α) where
  before := listBefore
  before_irrefl := listBefore_irrefl
  before_trans := listBefore_trans
  before_total := listBefore_total

/-- The lexicographic order on pairs. -/
def pairBefore (p q : α × β) : Bool :=
  before p.1 q.1 || (!before q.1 p.1 && before p.2 q.2)

/-- Pairs are compared at their first parts, and at their second parts if the first are equal. -/
theorem pairBefore_iff {p q : α × β} :
    pairBefore p q = true ↔ before p.1 q.1 = true ∨ (p.1 = q.1 ∧ before p.2 q.2 = true) := by
  simp only [pairBefore, Bool.or_eq_true, Bool.and_eq_true, Bool.not_eq_true']
  constructor
  · rintro (h | ⟨h, hl⟩)
    · exact .inl h
    · cases hpq : before p.1 q.1 with
      | true => exact .inl rfl
      | false => exact .inr ⟨before_total hpq h, hl⟩
  · rintro (h | ⟨h, hl⟩)
    · exact .inl h
    · exact .inr ⟨h ▸ before_irrefl p.1, hl⟩

instance : Sortable (α × β) where
  before := pairBefore
  before_irrefl p := by simp only [pairBefore, before_irrefl, Bool.and_false, Bool.or_false]
  before_trans {p q r} hpq hqr := by
    rw [pairBefore_iff] at *
    rcases hpq with hpq | ⟨hpq, h₁⟩
    · rcases hqr with hqr | ⟨hqr, -⟩
      · exact .inl (before_trans hpq hqr)
      · exact .inl (hqr ▸ hpq)
    · rcases hqr with hqr | ⟨hqr, h₂⟩
      · exact .inl (hpq ▸ hqr)
      · exact .inr ⟨hpq.trans hqr, before_trans h₁ h₂⟩
  before_total {p q} hpq hqp := by
    simp only [pairBefore, Bool.or_eq_false_iff] at hpq hqp
    obtain ⟨h₁, h₂⟩ := hpq
    obtain ⟨h₃, h₄⟩ := hqp
    rw [h₃] at h₂
    rw [h₁] at h₄
    simp only [Bool.not_false, Bool.true_and] at h₂ h₄
    exact Prod.ext (before_total h₁ h₃) (before_total h₂ h₄)

/-- The order pulled back along a map that is one to one. -/
@[reducible]
def Sortable.comap (key : β → α) (inj : ∀ {a b}, key a = key b → a = b) : Sortable β where
  before a b := before (key a) (key b)
  before_irrefl a := before_irrefl (key a)
  before_trans h₁ h₂ := before_trans h₁ h₂
  before_total h₁ h₂ := inj (before_total h₁ h₂)

end

instance : Sortable Nat where
  before a b := decide (a < b)
  before_irrefl a := by simp
  before_trans h₁ h₂ := by simp only [decide_eq_true_eq] at *; omega
  before_total h₁ h₂ := by simp only [decide_eq_false_iff_not] at *; omega

instance : Sortable Char :=
  Sortable.comap Char.toNat fun h => Char.toNat_inj.1 h

instance : Sortable String where
  before a b := @decide _ (String.decidableLT a b)
  before_irrefl a := decide_eq_false (String.lt_irrefl a)
  before_trans h₁ h₂ := decide_eq_true (String.lt_trans (of_decide_eq_true h₁) (of_decide_eq_true h₂))
  before_total h₁ h₂ := String.le_antisymm (String.not_lt.1 (of_decide_eq_false h₂))
    (String.not_lt.1 (of_decide_eq_false h₁))

end LanguageForms
