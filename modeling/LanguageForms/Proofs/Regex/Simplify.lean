/-
# Building small expressions keeps the language

`unite`, `append` and `iterate` describe the same words as the union, the
concatenation and the star of their parts: what they leave out is a repeated
alternative, the empty word as a factor, or a star below a star, and nesting to
the left moves brackets only.

No expression describes the empty language (`exists_matches`).
-/
import LanguageForms.Regex.Language
import LanguageForms.Regex.Simplify

namespace LanguageForms
namespace Regex

variable {l r : Regex} {w : List Char}

/-- **The words of a united expression** are the words of either side. -/
theorem matches_unite_iff : (unite l r).Matches w ↔ l.Matches w ∨ r.Matches w := by
  fun_induction unite l r with
  | case1 a b => rw [or_self]
  | case2 l a b _ iha ihb => rw [ihb, iha, matches_union_iff, or_assoc]
  | case3 l => rw [or_self]
  | case4 l r => exact matches_union_iff

/-- **The words of appended expressions** are a word of the left and a word of the right side. -/
theorem matches_append_iff :
    (append l r).Matches w ↔ ∃ u v, w = u ++ v ∧ l.Matches u ∧ r.Matches v := by
  fun_induction append l r generalizing w with
  | case1 r =>
    constructor
    · exact fun h => ⟨[], w, rfl, .epsilon, h⟩
    · rintro ⟨u, v, rfl, hu, hv⟩
      obtain rfl := matches_epsilon_iff.1 hu
      exact hv
  | case2 l =>
    constructor
    · exact fun h => ⟨w, [], (List.append_nil w).symm, h, .epsilon⟩
    · rintro ⟨u, v, rfl, hu, hv⟩
      obtain rfl := matches_epsilon_iff.1 hv
      rwa [List.append_nil]
  | case3 l a b _ iha ihb =>
    rw [ihb]
    constructor
    · rintro ⟨u, z, rfl, hu, hz⟩
      obtain ⟨x, y, rfl, hx, hy⟩ := iha.1 hu
      exact ⟨x, y ++ z, List.append_assoc x y z, hx, .concat hy hz⟩
    · rintro ⟨x, v, rfl, hx, hv⟩
      obtain ⟨y, z, rfl, hy, hz⟩ := matches_concat_iff.1 hv
      exact ⟨x ++ y, z, (List.append_assoc x y z).symm, iha.2 ⟨x, y, rfl, hx, hy⟩, hz⟩
  | case4 l r => exact matches_concat_iff

/-- **The words of an iterated expression** are those of its star. -/
theorem matches_iterate_iff : (iterate r).Matches w ↔ (star r).Matches w := by
  fun_cases iterate r with
  | case1 =>
    constructor
    · exact Matches.star_single
    · refine Matches.star_induction .epsilon fun u v hu hv => ?_
      rw [matches_epsilon_iff.1 hu]
      exact hv
  | case2 r =>
    constructor
    · exact Matches.star_single
    · exact Matches.star_induction .starNil fun u v hu hv => matches_star_append hu hv
  | case3 r => exact Iff.rfl

/-- Every expression describes some word. -/
theorem exists_matches (r : Regex) : ∃ w, r.Matches w := by
  induction r with
  | symbol c => exact ⟨[c], .symbol c⟩
  | epsilon => exact ⟨[], .epsilon⟩
  | union l r ihl _ =>
    obtain ⟨w, hw⟩ := ihl
    exact ⟨w, .unionLeft hw⟩
  | concat l r ihl ihr =>
    obtain ⟨u, hu⟩ := ihl
    obtain ⟨v, hv⟩ := ihr
    exact ⟨u ++ v, .concat hu hv⟩
  | star r _ => exact ⟨[], .starNil⟩

end Regex
end LanguageForms
