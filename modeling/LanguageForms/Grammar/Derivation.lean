/-
# Derivations

`Grammar.Derives g u v` says that `v` comes from `u` by replacing heads of
productions by their bodies, any number of times and in any order.  A word of
the grammar is a word of terminals derived from the start symbol.
-/
import LanguageForms.Grammar.Basic

namespace LanguageForms
namespace Grammar

/-- One head of a production is replaced by its body. -/
inductive Step (g : Grammar) : List Char → List Char → Prop where
  | replace {p : Production} (before after : List Char) :
      p ∈ g.productions → Step g (before ++ p.head :: after) (before ++ p.body ++ after)

/-- Any number of replacements. -/
inductive Derives (g : Grammar) : List Char → List Char → Prop where
  | refl (u : List Char) : Derives g u u
  | head {u v w : List Char} : Step g u v → Derives g v w → Derives g u w

/-- The word belongs to the language of the grammar. -/
def Generates (g : Grammar) (word : List Char) : Prop :=
  (∀ c ∈ word, c ∈ g.terminals) ∧ Derives g [g.start] word

namespace Derives

variable {g k : Grammar}

/-- A grammar with more productions derives more. -/
theorem mono {u v : List Char} (h : ∀ p ∈ g.productions, p ∈ k.productions)
    (hd : g.Derives u v) : k.Derives u v := by
  induction hd with
  | refl u => exact .refl u
  | head hstep _ ih =>
    cases hstep with
    | replace before after hp => exact .head (.replace before after (h _ hp)) ih

end Derives

/-- Only the start, the productions as a set and the terminals matter for the words. -/
theorem generates_congr {g k : Grammar} {w : List Char} (hstart : k.start = g.start)
    (hproductions : ∀ p, p ∈ k.productions ↔ p ∈ g.productions)
    (hterminals : ∀ c, c ∈ k.terminals ↔ c ∈ g.terminals) : k.Generates w ↔ g.Generates w := by
  rw [Generates, Generates, hstart]
  refine and_congr (forall₂_congr fun c _ => hterminals c) ⟨?_, ?_⟩
  · exact Derives.mono fun p hp => (hproductions p).1 hp
  · exact Derives.mono fun p hp => (hproductions p).2 hp

end Grammar
end LanguageForms
