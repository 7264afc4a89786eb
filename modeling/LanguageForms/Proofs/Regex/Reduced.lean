/-
# Small expressions stay reduced

A reduced expression is one without a redundant node (`isReduced_iff_nodes`).

`unite` and `append` take the right side apart from left to right, and build on what
they have got so far.  Nothing is known of that intermediate result but that it is
reduced: it may have collapsed to an alternative that was there, or be the very next
alternative.  So the induction follows the builders and not the right side, and what
keeps a new node from being redundant is that no earlier case of the builder applied.

No builder brings in a symbol (`mem_symbols_unite` and the two behind it).  What all
three keep is a `Regex.Kept` property; being reduced and being spelled with some
symbols are such properties (`kept_isReduced`, `kept_symbols`).
-/
import LanguageForms.Proofs.Regex.Simplify
import LanguageForms.Regex.Nodes
import LanguageForms.Regex.Reduced

namespace LanguageForms
namespace Regex

variable {l r : Regex} {c : Char}

/-! ### Redundant nodes -/

/-- A symbol is not redundant. -/
theorem not_isRedundant_symbol : ¬ IsRedundant (symbol c) := by
  intro h
  cases h

/-- The empty word is not redundant. -/
theorem not_isRedundant_epsilon : ¬ IsRedundant epsilon := by
  intro h
  cases h

/-- A union is not redundant if it is nested to the left and its sides differ. -/
theorem not_isRedundant_union : ¬ IsRedundant (union l r) ↔ r.isUnion = false ∧ l ≠ r := by
  constructor
  · intro h
    refine ⟨?_, ?_⟩
    · cases r with
      | union a b => exact absurd (.unionUnion l a b) h
      | _ => rfl
    · rintro rfl
      exact h (.unionSelf l)
  · rintro ⟨hright, hne⟩ h
    cases h with
    | unionUnion a b => cases hright
    | unionSelf => exact hne rfl

/-- A concatenation is not redundant if it is nested to the left and no side is empty. -/
theorem not_isRedundant_concat :
    ¬ IsRedundant (concat l r) ↔ l ≠ epsilon ∧ r ≠ epsilon ∧ r.isConcat = false := by
  constructor
  · intro h
    refine ⟨?_, ?_, ?_⟩
    · rintro rfl
      exact h (.epsilonConcat r)
    · rintro rfl
      exact h (.concatEpsilon l)
    · cases r with
      | concat a b => exact absurd (.concatConcat l a b) h
      | _ => rfl
  · rintro ⟨hl, hr, hright⟩ h
    cases h with
    | epsilonConcat => exact hl rfl
    | concatEpsilon => exact hr rfl
    | concatConcat a b => cases hright

/-- A star is not redundant if it repeats neither the empty word nor a star. -/
theorem not_isRedundant_star : ¬ IsRedundant (star r) ↔ r ≠ epsilon ∧ r.isStar = false := by
  constructor
  · intro h
    refine ⟨?_, ?_⟩
    · rintro rfl
      exact h .starEpsilon
    · cases r with
      | star r => exact absurd (.starStar r) h
      | _ => rfl
  · rintro ⟨hr, hinner⟩ h
    cases h with
    | starEpsilon => exact hr rfl
    | starStar => cases hinner

/-- **An expression is reduced** exactly if none of its nodes is redundant. -/
theorem isReduced_iff_nodes : r.IsReduced ↔ ∀ n ∈ r.nodes, ¬ n.expression.IsRedundant := by
  induction r with
  | symbol c =>
    simp only [IsReduced, nodes, List.forall_mem_singleton, not_isRedundant_symbol,
      not_false_eq_true]
  | epsilon =>
    simp only [IsReduced, nodes, List.forall_mem_singleton, not_isRedundant_epsilon,
      not_false_eq_true]
  | union l r ihl ihr =>
    simp only [IsReduced, nodes, List.forall_mem_append, List.forall_mem_singleton,
      List.forall_mem_map, Node.under, not_isRedundant_union, ihl, ihr, and_assoc]
  | concat l r ihl ihr =>
    simp only [IsReduced, nodes, List.forall_mem_append, List.forall_mem_singleton,
      List.forall_mem_map, Node.under, not_isRedundant_concat, ihl, ihr, and_assoc]
  | star r ih =>
    simp only [IsReduced, nodes, List.forall_mem_append, List.forall_mem_singleton,
      List.forall_mem_map, Node.under, not_isRedundant_star, ih]

/-! ### What the builders keep -/

/-- **A united expression is reduced** if both sides are. -/
theorem isReduced_unite (hl : l.IsReduced) (hr : r.IsReduced) : (unite l r).IsReduced := by
  fun_induction unite l r with
  | case1 a b => exact hl
  | case2 l a b _ iha ihb => exact ihb (iha hl hr.1) hr.2.1
  | case3 l => exact hl
  | case4 l r hright hne =>
    refine ⟨hl, hr, ?_, hne⟩
    cases r with
    | union a b => exact absurd rfl (hright a b)
    | _ => rfl

/-- **An appended expression is reduced** if both sides are. -/
theorem isReduced_append (hl : l.IsReduced) (hr : r.IsReduced) : (append l r).IsReduced := by
  fun_induction append l r with
  | case1 r => exact hr
  | case2 l => exact hl
  | case3 l a b _ iha ihb => exact ihb (iha hl hr.1) hr.2.1
  | case4 l r hleft hright hconcat =>
    refine ⟨hl, hr, hleft, hright, ?_⟩
    cases r with
    | concat a b => exact absurd rfl (hconcat a b)
    | _ => rfl

/-- **An iterated expression is reduced** if the inner one is. -/
theorem isReduced_iterate (hr : r.IsReduced) : (iterate r).IsReduced := by
  fun_cases iterate r with
  | case1 => trivial
  | case2 r => exact hr
  | case3 r hne hstar =>
    refine ⟨hr, hne, ?_⟩
    cases r with
    | star r => exact absurd rfl (hstar r)
    | _ => rfl

/-- A united expression has symbols of its sides only. -/
theorem mem_symbols_unite (h : c ∈ (unite l r).symbols) : c ∈ l.symbols ∨ c ∈ r.symbols := by
  fun_induction unite l r with
  | case1 a b => exact .inl h
  | case2 l a b _ iha ihb =>
    rcases ihb h with h | h
    · exact (iha h).imp_right (List.mem_append_left _)
    · exact .inr (List.mem_append_right _ h)
  | case3 l => exact .inl h
  | case4 l r => exact List.mem_append.1 h

/-- An appended expression has symbols of its sides only. -/
theorem mem_symbols_append (h : c ∈ (append l r).symbols) : c ∈ l.symbols ∨ c ∈ r.symbols := by
  fun_induction append l r with
  | case1 r => exact .inr h
  | case2 l => exact .inl h
  | case3 l a b _ iha ihb =>
    rcases ihb h with h | h
    · exact (iha h).imp_right (List.mem_append_left _)
    · exact .inr (List.mem_append_right _ h)
  | case4 l r => exact List.mem_append.1 h

/-- An iterated expression has the symbols of the inner one. -/
theorem symbols_iterate (r : Regex) : (iterate r).symbols = r.symbols := by
  fun_cases iterate r <;> rfl

/-! ### Properties that all builders keep -/

/-- The union, the concatenation and the star of expressions have the property that the
expressions have. -/
structure Kept (P : Regex → Prop) : Prop where
  unite : ∀ {l r}, P l → P r → P (l.unite r)
  append : ∀ {l r}, P l → P r → P (l.append r)
  iterate : ∀ {r}, P r → P r.iterate

/-- **Union, concatenation and star** keep expressions reduced. -/
theorem kept_isReduced : Kept IsReduced where
  unite := isReduced_unite
  append := isReduced_append
  iterate := isReduced_iterate

/-- Whatever symbols expressions are spelled with, no other ones come in. -/
theorem kept_symbols (S : Char → Prop) : Kept fun r => ∀ c ∈ r.symbols, S c where
  unite hl hr c hc := (mem_symbols_unite hc).elim (hl c) (hr c)
  append hl hr c hc := (mem_symbols_append hc).elim (hl c) (hr c)
  iterate {r} hr c hc := hr c (symbols_iterate r ▸ hc)

/-- Two properties that are kept are kept together. -/
theorem Kept.and {P Q : Regex → Prop} (hP : Kept P) (hQ : Kept Q) : Kept fun r => P r ∧ Q r where
  unite hl hr := ⟨hP.unite hl.1 hr.1, hQ.unite hl.2 hr.2⟩
  append hl hr := ⟨hP.append hl.1 hr.1, hQ.append hl.2 hr.2⟩
  iterate hr := ⟨hP.iterate hr.1, hQ.iterate hr.2⟩

end Regex
end LanguageForms
