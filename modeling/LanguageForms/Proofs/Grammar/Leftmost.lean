/-
# Derivations from the left

A derivation may replace heads in any order.  `Grammar.Leftmost g u w` works at the
first symbol of `u` only: a terminal there is the next letter of the word, and a
head is replaced by a body.

A replacement further to the right can wait until its head has come to the front
(`Leftmost.of_step`), so nothing is lost: the words of terminals that come from a
list of symbols are those that come from it from the left
(`leftmost_iff_derives`).
-/
import LanguageForms.Grammar.Derivation

namespace LanguageForms
namespace Grammar

/-- The word of terminals comes from the symbols by work at the first symbol only. -/
inductive Leftmost (g : Grammar) : List Char → List Char → Prop where
  | nil : Leftmost g [] []
  | read {c : Char} {u w : List Char} :
      c ∈ g.terminals → Leftmost g u w → Leftmost g (c :: u) (c :: w)
  | expand {p : Production} {u w : List Char} :
      p ∈ g.productions → Leftmost g (p.body ++ u) w → Leftmost g (p.head :: u) w

variable {g : Grammar} {u v w : List Char}

/-- A derivation can be made behind a symbol. -/
theorem Derives.cons (c : Char) (h : g.Derives u v) : g.Derives (c :: u) (c :: v) := by
  induction h with
  | refl u => exact .refl (c :: u)
  | head hstep _ ih =>
    cases hstep with
    | replace before after hp => exact .head (.replace (c :: before) after hp) ih

/-- A leftmost derivation is a derivation. -/
theorem Leftmost.derives (h : g.Leftmost u w) : g.Derives u w := by
  induction h with
  | nil => exact .refl []
  | read _ _ ih => exact ih.cons _
  | expand hp _ ih => exact .head (.replace [] _ hp) ih

/-- What is derived leftmost is made of terminals. -/
theorem Leftmost.mem_terminals (h : g.Leftmost u w) : ∀ c ∈ w, c ∈ g.terminals := by
  induction h with
  | nil => exact fun c hc => absurd hc List.not_mem_nil
  | read ht _ ih =>
    intro c hc
    rcases List.mem_cons.1 hc with rfl | hc
    · exact ht
    · exact ih c hc
  | expand _ _ ih => exact ih

/-- Terminals are derived from themselves. -/
theorem Leftmost.refl (h : ∀ c ∈ w, c ∈ g.terminals) : g.Leftmost w w := by
  induction w with
  | nil => exact .nil
  | cons c w ih =>
    exact .read (h c (List.mem_cons_self ..)) (ih fun x hx => h x (List.mem_cons_of_mem c hx))

/-- **A replacement can wait** until its head has come to the front. -/
theorem Leftmost.of_step (hstep : g.Step u v) (h : g.Leftmost v w) : g.Leftmost u w := by
  cases hstep with
  | @replace p before after hp =>
    -- what stands before the head is used up first, and may grow on the way
    generalize hv : before ++ p.body ++ after = v at h
    induction h generalizing before with
    | nil =>
      obtain ⟨hbefore, rfl⟩ := List.append_eq_nil_iff.1 hv
      obtain ⟨rfl, hbody⟩ := List.append_eq_nil_iff.1 hbefore
      exact .expand hp (by rw [hbody]; exact .nil)
    | @read c v w hc hrest ih =>
      cases before with
      | nil => exact .expand hp (hv ▸ .read hc hrest)
      | cons b before =>
        rw [List.cons_append, List.cons_append, List.cons.injEq] at hv
        obtain ⟨rfl, hv⟩ := hv
        exact .read hc (ih before hv)
    | @expand q v w hq hrest ih =>
      cases before with
      | nil => exact .expand hp (hv ▸ .expand hq hrest)
      | cons b before =>
        rw [List.cons_append, List.cons_append, List.cons.injEq] at hv
        obtain ⟨rfl, rfl⟩ := hv
        have hwait := ih (q.body ++ before) (by simp only [List.append_assoc])
        rw [List.append_assoc] at hwait
        exact .expand hq hwait

/-- **What can be derived can be derived leftmost.** -/
theorem Leftmost.of_derives (h : g.Derives u w) (hw : ∀ c ∈ w, c ∈ g.terminals) :
    g.Leftmost u w := by
  induction h with
  | refl u => exact .refl hw
  | head hstep _ ih => exact .of_step hstep (ih hw)

/-- **Working from the left loses no word of terminals.** -/
theorem leftmost_iff_derives :
    g.Leftmost u w ↔ (∀ c ∈ w, c ∈ g.terminals) ∧ g.Derives u w :=
  ⟨fun h => ⟨h.mem_terminals, h.derives⟩, fun ⟨hw, h⟩ => .of_derives h hw⟩

end Grammar
end LanguageForms
