/-
# The language of a regular expression

`Regex.Matches r w` says that the word `w` belongs to the language of `r`.  The
equivalences below say, operator by operator, what the words are.
-/
import LanguageForms.Regex.Basic

namespace LanguageForms
namespace Regex

/-- The word belongs to the language of the expression. -/
inductive Matches : Regex → List Char → Prop where
  | symbol (c : Char) : Matches (symbol c) [c]
  | epsilon : Matches epsilon []
  | unionLeft {l r : Regex} {w : List Char} : Matches l w → Matches (union l r) w
  | unionRight {l r : Regex} {w : List Char} : Matches r w → Matches (union l r) w
  | concat {l r : Regex} {u v : List Char} :
      Matches l u → Matches r v → Matches (concat l r) (u ++ v)
  | starNil {r : Regex} : Matches (star r) []
  | starCons {r : Regex} {u v : List Char} :
      Matches r u → Matches (star r) v → Matches (star r) (u ++ v)

/-- A symbol has one word. -/
theorem matches_symbol_iff {c : Char} {w : List Char} : Matches (symbol c) w ↔ w = [c] :=
  ⟨fun h => by cases h; rfl, fun h => h ▸ .symbol c⟩

/-- The empty word is the only word of `ε`. -/
theorem matches_epsilon_iff {w : List Char} : Matches epsilon w ↔ w = [] :=
  ⟨fun h => by cases h; rfl, fun h => h ▸ .epsilon⟩

/-- A word of a union is a word of one side. -/
theorem matches_union_iff {l r : Regex} {w : List Char} :
    Matches (union l r) w ↔ Matches l w ∨ Matches r w := by
  constructor
  · intro h
    cases h with
    | unionLeft h => exact .inl h
    | unionRight h => exact .inr h
  · rintro (h | h)
    · exact .unionLeft h
    · exact .unionRight h

/-- A word of a concatenation is cut into words of the sides. -/
theorem matches_concat_iff {l r : Regex} {w : List Char} :
    Matches (concat l r) w ↔ ∃ u v, w = u ++ v ∧ Matches l u ∧ Matches r v := by
  constructor
  · intro h
    cases h with
    | concat hl hr => exact ⟨_, _, rfl, hl, hr⟩
  · rintro ⟨u, v, rfl, hl, hr⟩
    exact .concat hl hr

/-- A word of a star is empty, or begins with a word of the body. -/
theorem matches_star_iff {r : Regex} {w : List Char} :
    Matches (star r) w ↔ w = [] ∨ ∃ u v, w = u ++ v ∧ Matches r u ∧ Matches (star r) v := by
  constructor
  · intro h
    cases h with
    | starNil => exact .inl rfl
    | starCons hu hv => exact .inr ⟨_, _, rfl, hu, hv⟩
  · rintro (rfl | ⟨u, v, rfl, hu, hv⟩)
    · exact .starNil
    · exact .starCons hu hv

/-- What holds of the empty word, and with a word of the inner expression in front of a word of
which it holds, holds of every word of a star. -/
theorem Matches.star_induction {r : Regex} {P : List Char → Prop} (hnil : P [])
    (hcons : ∀ u v, Matches r u → P v → P (u ++ v)) {w : List Char} (h : Matches (star r) w) :
    P w := by
  generalize hs : star r = s at h
  induction h with
  | starNil => exact hnil
  | starCons hu _ _ ih =>
    obtain rfl := star.inj hs
    exact hcons _ _ hu (ih rfl)
  | _ => cases hs

/-- A word of the body is a word of the star. -/
theorem Matches.star_single {r : Regex} {w : List Char} (h : Matches r w) : Matches (star r) w := by
  have hw := starCons h .starNil
  rwa [List.append_nil] at hw

/-- The words of a star are closed under appending. -/
theorem matches_star_append {r : Regex} {u v : List Char} (hu : Matches (star r) u)
    (hv : Matches (star r) v) : Matches (star r) (u ++ v) := by
  refine hu.star_induction (P := fun u => Matches (star r) (u ++ v)) hv fun x y hx hy => ?_
  rw [List.append_assoc]
  exact .starCons hx hy

/-- Every word of an expression is spelled with its symbols. -/
theorem mem_symbols_of_matches {r : Regex} {w : List Char} (h : Matches r w) :
    ∀ c ∈ w, c ∈ r.symbols := by
  induction h with
  | symbol c => exact fun x hx => hx
  | epsilon => exact fun x hx => hx
  | unionLeft _ ih => exact fun x hx => List.mem_append_left _ (ih x hx)
  | unionRight _ ih => exact fun x hx => List.mem_append_right _ (ih x hx)
  | concat _ _ ihl ihr =>
    intro x hx
    rcases List.mem_append.1 hx with hx | hx
    · exact List.mem_append_left _ (ihl x hx)
    · exact List.mem_append_right _ (ihr x hx)
  | starNil => exact fun x hx => absurd hx List.not_mem_nil
  | starCons _ _ ihl ihr =>
    intro x hx
    rcases List.mem_append.1 hx with hx | hx
    · exact ihl x hx
    · exact ihr x hx

end Regex
end LanguageForms
