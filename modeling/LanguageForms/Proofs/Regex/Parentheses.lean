/-
# Which brackets of a text can be left out

Brackets are told apart by the tokens in front of them that are no brackets: `width`
counts these tokens, and `closings` gives for every `)` how many of them stand before
it.  No phrase is wider than its expression, and one that is as wide has the `)` that
the expression needs (`Phrase.required_sublist`), for an operand that binds too weakly
for its place stands in brackets there.

The text of an expression has one `)` more only where a repetition is repeated
(`hasDoubleStar_of_count_lt`).  So brackets that can be left out are such ones.  And
these can be left out, since a repetition is read like an operand
(`IsPattern.without_brackets`).
-/
import LanguageForms.Proofs.Regex.Faults
import Mathlib.Algebra.Order.Group.Nat
import Mathlib.Algebra.Order.Monoid.Unbundled.MinMax
import Mathlib.Data.List.Count

namespace LanguageForms
namespace Regex

variable {r s : Regex} {cs ds before inner after : List Char} {ts us vs ws : List Token}
  {m : Layer} {ns ms : List Nat} {b b' : Bool} {n k d : Nat}

/-! ### Places of brackets -/

namespace Token

/-- Brackets have no weight. -/
def weight : Token → Nat
  | opening => 0
  | closing => 0
  | _ => 1

/-- How many tokens are no brackets. -/
def width : List Token → Nat
  | [] => 0
  | t :: ts => t.weight + width ts

/-- For every `)` the number of tokens before it that are no brackets. -/
def closings : List Token → List Nat
  | [] => []
  | t :: ts => (if t = closing then [0] else []) ++ (closings ts).map (t.weight + ·)

/-- An opening bracket does not count. -/
@[simp] theorem weight_opening : weight (alone '(') = 0 := rfl

/-- A closing bracket does not count. -/
@[simp] theorem weight_closing : weight (alone ')') = 0 := rfl

/-- A bar counts. -/
@[simp] theorem weight_bar : weight (alone '|') = 1 := rfl

/-- A star counts. -/
@[simp] theorem weight_star : weight (alone '*') = 1 := rfl

/-- No tokens have no width. -/
@[simp] theorem width_nil : width [] = 0 := rfl

/-- The width is the sum of the weights. -/
@[simp] theorem width_cons (t : Token) (ts : List Token) :
    width (t :: ts) = t.weight + width ts := rfl

/-- The widths of two parts add up. -/
@[simp] theorem width_append (us vs : List Token) : width (us ++ vs) = width us + width vs := by
  induction us with
  | nil => simp
  | cons u us ih => simp [ih, Nat.add_assoc]

/-- What stands behind other tokens is so much further on. -/
theorem closings_append (us vs : List Token) :
    closings (us ++ vs) = closings us ++ (closings vs).map (width us + ·) := by
  induction us with
  | nil => simp [closings]
  | cons u us ih => simp [closings, ih, Function.comp_def, Nat.add_assoc]

/-- A `(` moves no `)`. -/
theorem closings_opening (ts : List Token) : closings (.opening :: ts) = closings ts := by
  simp [closings, weight]

/-- A `)` in front stands at place zero and moves no other. -/
theorem closings_closing (ts : List Token) : closings (.closing :: ts) = 0 :: closings ts := by
  simp [closings, weight]

/-- Leaving out a pair of brackets takes away one `)` and moves no other. -/
theorem closings_pair_perm (us vs ws : List Token) :
    (closings (us ++ .opening :: vs ++ .closing :: ws)).Perm
      (width (us ++ vs) :: closings (us ++ vs ++ ws)) := by
  have hopening : weight .opening = 0 := rfl
  simp only [closings_append, closings_opening, closings_closing, width_append, width_cons,
    hopening, Nat.zero_add, List.map_cons, Nat.add_zero]
  exact List.perm_middle

/-- A pair of brackets adds no width. -/
theorem width_pair (us vs ws : List Token) :
    width (us ++ .opening :: vs ++ .closing :: ws) = width (us ++ vs ++ ws) := by
  simp [weight]

end Token

/-! ### What an expression needs -/

open Token

/-- How many tokens that are no brackets the text of an expression has. -/
def width : Regex → Nat
  | symbol _ => 1
  | epsilon => 1
  | union l r => l.width + 1 + r.width
  | concat l r => l.width + r.width
  | star r => r.width + 1

/-- The text of an expression has a token that is no bracket. -/
theorem width_pos (r : Regex) : 0 < r.width := by
  induction r <;> simp only [width] <;> omega

/-- The places of `)` with one more at the end, if asked for. -/
def closeIf (b : Bool) (n : Nat) (ns : List Nat) : List Nat := if b then ns ++ [n] else ns

/-- The places of the `)` that an expression needs: behind an operand that binds less strongly than
its place asks for. -/
def required : Regex → List Nat
  | symbol _ => []
  | epsilon => []
  | union l r => l.required ++ (closeIf (r.strength < 1) r.width r.required).map (l.width + 1 + ·)
  | concat l r => closeIf (l.strength < 1) l.width l.required ++
      (closeIf (r.strength < 2) r.width r.required).map (l.width + ·)
  | star r => closeIf (r.strength < 2) r.width r.required

/-- At most one place is added. -/
theorem closeIf_sublist (h : ns.Sublist ms) : (closeIf b n ns).Sublist (ms ++ [n]) := by
  cases b with
  | false => exact h.trans (List.sublist_append_left ms [n])
  | true => exact h.append (List.Sublist.refl [n])

/-- Asking for more adds no fewer places. -/
theorem closeIf_mono (h : b = true → b' = true) : (closeIf b n ns).Sublist (closeIf b' n ns) := by
  cases b with
  | false =>
    cases b' with
    | false => exact List.Sublist.refl ns
    | true => exact List.sublist_append_left ns [n]
  | true =>
    obtain rfl := h rfl
    exact List.Sublist.refl _

/-- A place that asks for less needs no more brackets. -/
theorem closeIf_strength_mono (h : k ≤ d) :
    (closeIf (r.strength < k) n ns).Sublist (closeIf (r.strength < d) n ns) :=
  closeIf_mono fun hk => decide_eq_true (Nat.lt_of_lt_of_le (of_decide_eq_true hk) h)

/-- **A phrase that is as wide as its expression has the brackets that the expression needs**, and
no phrase is wider. -/
theorem Phrase.required_sublist (h : Phrase m ts r) :
    Token.width ts ≤ r.width ∧ (Token.width ts = r.width →
      (closeIf (r.strength < m.strength) r.width r.required).Sublist (closings ts)) := by
  induction h with
  | symbol c => exact ⟨Nat.le_refl 1, fun _ => List.nil_sublist _⟩
  | epsilon => exact ⟨Nat.le_refl 1, fun _ => List.nil_sublist _⟩
  | emptyGroup => exact ⟨Nat.zero_le 1, fun h => nomatch h⟩
  | @group ts r _ ih =>
    have hwidth : Token.width (.opening :: ts ++ [.closing]) = Token.width ts := by simp [weight]
    have hclosings : closings (.opening :: ts ++ [.closing]) = closings ts ++ [Token.width ts] := by
      rw [List.cons_append, closings_opening, closings_append]
      rfl
    rw [hwidth, hclosings]
    refine ⟨ih.1, fun h => ?_⟩
    rw [h]
    exact closeIf_sublist (ih.2 h)
  | operand _ ih => exact ⟨ih.1, fun h => (closeIf_strength_mono (by decide)).trans (ih.2 h)⟩
  | repetition _ ih => exact ⟨ih.1, fun h => (closeIf_strength_mono (by decide)).trans (ih.2 h)⟩
  | sequence _ ih => exact ⟨ih.1, fun h => (closeIf_strength_mono (by decide)).trans (ih.2 h)⟩
  | @star ts r _ ih =>
    have hsign : closings (ts ++ [.star]) = closings ts := by
      rw [closings_append]
      exact List.append_nil _
    rw [hsign, width_append]
    exact ⟨Nat.add_le_add_right ih.1 1, fun h => ih.2 (Nat.add_right_cancel h)⟩
  | @optional ts r _ ih =>
    -- the sign stands for two tokens
    have hwidth : Token.width (ts ++ [.optional]) < Regex.width (.union r .epsilon) := by
      rw [width_append]
      exact Nat.add_lt_add_right (Nat.lt_succ_of_le ih.1) 1
    exact ⟨Nat.le_of_lt hwidth, fun h => absurd h (Nat.ne_of_lt hwidth)⟩
  | @repeated ts r _ ih =>
    -- the sign stands for the operand and a star
    have hwidth : Token.width (ts ++ [.repeated]) <
        Regex.width (.concat r (.star r)) := by
      have hpos := r.width_pos
      rw [width_append]
      exact Nat.add_lt_add_of_le_of_lt ih.1 (Nat.succ_lt_succ hpos)
    exact ⟨Nat.le_of_lt hwidth, fun h => absurd h (Nat.ne_of_lt hwidth)⟩
  | @concat ts us l r _ _ ihl ihr =>
    rw [width_append, closings_append]
    refine ⟨Nat.add_le_add ihl.1 ihr.1, fun h => ?_⟩
    obtain ⟨hl, hr⟩ := (add_eq_add_iff_eq_and_eq ihl.1 ihr.1).1 h
    rw [hl]
    exact (ihl.2 hl).append ((ihr.2 hr).map _)
  | @union ts us l r sign _ _ ihl ihr =>
    have hclosings : closings (ts ++ .either sign :: us) =
        closings ts ++ (closings us).map (Token.width ts + 1 + ·) := by
      rw [closings_append]
      simp [closings, weight, Function.comp_def, Nat.add_assoc]
    have hwidth : Token.width (ts ++ .either sign :: us) = Token.width ts + 1 + Token.width us := by
      simp [weight, Nat.add_assoc]
    rw [hwidth, hclosings]
    have hleft : Token.width ts + 1 ≤ l.width + 1 := Nat.add_le_add_right ihl.1 1
    refine ⟨Nat.add_le_add hleft ihr.1, fun h => ?_⟩
    obtain ⟨hl, hr⟩ := (add_eq_add_iff_eq_and_eq hleft ihr.1).1 h
    rw [hl]
    exact (ihl.2 (Nat.add_right_cancel hl)).append ((ihr.2 hr).map _)

/-! ### What a text has -/

/-- Brackets around a text add no width. -/
theorem width_bracketIf (b : Bool) (cs : List Char) :
    Token.width ((bracketIf b cs).map alone) = Token.width (cs.map alone) := by
  cases b with
  | false => rfl
  | true => simp [bracketIf]

/-- Brackets around a text add a place at its end. -/
theorem closings_bracketIf (b : Bool) (cs : List Char) :
    closings ((bracketIf b cs).map alone) =
      closeIf b (Token.width (cs.map alone)) (closings (cs.map alone)) := by
  cases b with
  | false => rfl
  | true =>
    have htokens : (bracketIf true cs).map alone = .opening :: (cs.map alone ++ [.closing]) := by
      simp [bracketIf, alone, classify]
    rw [htokens, closings_opening, closings_append]
    rfl

/-- A plain character is its own token. -/
theorem alone_of_isPlain {c : Char} (h : isPlain c = true) : alone c = .symbol c :=
  have hplain := isPlain_iff.1 h
  classify_eq_symbol_iff.2 ⟨hplain.1, hplain.2.2⟩

/-- The text of a plain expression has the width of the expression. -/
theorem width_chars (h : r.IsPlain) : Token.width (r.chars.map alone) = r.width := by
  induction r with
  | symbol c =>
    rw [chars, List.map_singleton, alone_of_isPlain (h c (List.mem_singleton.2 rfl))]
    rfl
  | epsilon => rfl
  | union l r ihl ihr =>
    obtain ⟨hl, hr⟩ := List.forall_mem_append.1 h
    rw [chars, List.map_append, List.map_cons, width_append, width_cons, weight_bar,
      width_bracketIf, ihl hl, ihr hr, ← Nat.add_assoc]
    rfl
  | concat l r ihl ihr =>
    obtain ⟨hl, hr⟩ := List.forall_mem_append.1 h
    rw [chars, List.map_append, width_append, width_bracketIf, width_bracketIf, ihl hl, ihr hr]
    rfl
  | star r ih =>
    rw [chars, List.map_append, width_append, width_bracketIf, ih h]
    rfl

/-- A balanced text in brackets is balanced. -/
theorem balanced_bracketIf (h : Text.Balanced cs) : Text.Balanced (bracketIf b cs) := by
  cases b with
  | false => exact h
  | true => exact .group h .nil

/-- The text of an expression with plain symbols is balanced. -/
theorem balanced_chars (h : r.IsPlain) : Text.Balanced r.chars := by
  induction r with
  | symbol c =>
    obtain ⟨hoperator, -⟩ := isPlain_iff.1 (h c (List.mem_singleton.2 rfl))
    refine .char ?_ ?_ .nil
    · rintro rfl
      cases hoperator
    · rintro rfl
      cases hoperator
  | epsilon => exact .char (by decide) (by decide) .nil
  | union l r ihl ihr =>
    obtain ⟨hl, hr⟩ := List.forall_mem_append.1 h
    exact (ihl hl).append (.char (by decide) (by decide) (balanced_bracketIf (ihr hr)))
  | concat l r ihl ihr =>
    obtain ⟨hl, hr⟩ := List.forall_mem_append.1 h
    exact (balanced_bracketIf (ihl hl)).append (balanced_bracketIf (ihr hr))
  | star r ih =>
    exact (balanced_bracketIf (ih h)).append (.char (by decide) (by decide) .nil)

/-- In the text stands a repetition in brackets that is repeated, with so many tokens before its
`)`. -/
def HasDoubleStar (cs : List Char) (k : Nat) : Prop :=
  ∃ before s after, s.IsPlain ∧ cs = before ++ '(' :: (star s).chars ++ ')' :: '*' :: after ∧
    Token.width ((before ++ (star s).chars).map alone) = k

/-- A double star is moved by what stands before it. -/
theorem HasDoubleStar.append (us vs : List Char) (h : HasDoubleStar cs k) :
    HasDoubleStar (us ++ (cs ++ vs)) (Token.width (us.map alone) + k) := by
  obtain ⟨before, s, after, hs, rfl, rfl⟩ := h
  exact ⟨us ++ before, s, after ++ vs, hs, by simp, by simp⟩

/-- Brackets around a text leave a double star where it is. -/
theorem HasDoubleStar.bracketIf (b : Bool) (h : HasDoubleStar cs k) :
    HasDoubleStar (bracketIf b cs) k := by
  cases b with
  | false => exact h
  | true =>
    have hgroup := h.append ['('] [')']
    have hopening : Token.width (['('].map alone) = 0 := rfl
    rwa [hopening, Nat.zero_add] at hgroup

/-- A double star below a star is one of the whole. -/
theorem HasDoubleStar.star (h : HasDoubleStar (Regex.bracketIf (r.strength < 3) r.chars) k) :
    HasDoubleStar (Regex.star r).chars k := by
  simpa [chars] using h.append [] ['*']

/-- A place that is missing among moved places is missing before the move. -/
theorem exists_of_count_map_lt (h : (ns.map (d + ·)).count k < (ms.map (d + ·)).count k) :
    ∃ j, k = d + j ∧ ns.count j < ms.count j := by
  have hmem : k ∈ ms.map (d + ·) := List.count_pos_iff.1 (Nat.zero_lt_of_lt h)
  obtain ⟨j, -, rfl⟩ := List.mem_map.1 hmem
  have hinjective : Function.Injective (d + ·) := fun _ _ => Nat.add_left_cancel
  rw [List.count_map_of_injective _ _ hinjective, List.count_map_of_injective _ _ hinjective] at h
  exact ⟨j, rfl, h⟩

/-- A `)` too many belongs to one side of the text. -/
theorem hasDoubleStar_append {us vs : List Char} (hwidth : Token.width (us.map alone) = d)
    (hu : ∀ j, ns.count j < (closings (us.map alone)).count j → HasDoubleStar us j)
    (hv : ∀ j, ms.count j < (closings (vs.map alone)).count j → HasDoubleStar vs j)
    (hk : (ns ++ ms.map (d + ·)).count k < (closings ((us ++ vs).map alone)).count k) :
    HasDoubleStar (us ++ vs) k := by
  rw [List.map_append, closings_append, hwidth, List.count_append, List.count_append] at hk
  rcases lt_or_lt_of_add_lt_add hk with hk | hk
  · have hfound := (hu k hk).append [] vs
    simpa using hfound
  · obtain ⟨j, rfl, hj⟩ := exists_of_count_map_lt hk
    have hfound := (hv j hj).append us []
    rwa [hwidth, List.append_nil] at hfound

/-- A place that is missing is missing without the one that is added to both lists. -/
theorem count_closeIf_lt (h : (closeIf b n ns).count k < (closeIf b n ms).count k) :
    ns.count k < ms.count k := by
  cases b with
  | false => exact h
  | true =>
    rw [closeIf, if_pos rfl, closeIf, if_pos rfl, List.count_append, List.count_append] at h
    exact Nat.lt_of_add_lt_add_right h

/-- Brackets that an operand needs are no reason. -/
theorem hasDoubleStar_bracketIf (h : r.IsPlain)
    (ih : r.required.count k < (closings (r.chars.map alone)).count k → HasDoubleStar r.chars k)
    (hk : (closeIf b r.width r.required).count k <
      (closings ((bracketIf b r.chars).map alone)).count k) :
    HasDoubleStar (bracketIf b r.chars) k := by
  rw [closings_bracketIf, width_chars h] at hk
  exact (ih (count_closeIf_lt hk)).bracketIf b

/-- Under a star the text of a star has brackets that it does not need. -/
theorem hasDoubleStar_star_star (h : (star s).IsPlain)
    (ih : (star s).required.count k < (closings ((star s).chars.map alone)).count k →
      HasDoubleStar (star s).chars k)
    (hk : (star s).required.count k <
      (closings ((bracketIf true (star s).chars).map alone)).count k) :
    HasDoubleStar (star (star s)).chars k := by
  by_cases hplace : k = (star s).width
  · refine ⟨[], s, [], h, by simp [chars, bracketIf, strength], ?_⟩
    rw [hplace, List.nil_append]
    exact width_chars h
  · have hother : [(star s).width].count k = 0 := List.count_eq_zero.2 (by simpa using hplace)
    rw [closings_bracketIf, width_chars h, closeIf, if_pos rfl, List.count_append, hother] at hk
    exact ((ih hk).bracketIf _).star

/-- **A text has more `)` than its expression needs only where a repetition is repeated.** -/
theorem hasDoubleStar_of_count_lt (h : r.IsPlain)
    (hk : r.required.count k < (closings (r.chars.map alone)).count k) :
    HasDoubleStar r.chars k := by
  induction r generalizing k with
  | symbol c =>
    rw [chars, List.map_singleton, alone_of_isPlain (h c (List.mem_singleton.2 rfl))] at hk
    cases hk
  | epsilon => cases hk
  | union l r ihl ihr =>
    obtain ⟨hl, hr⟩ := List.forall_mem_append.1 h
    have hsplit : (union l r).chars =
        (l.chars ++ ['|']) ++ bracketIf (r.strength < 1) r.chars := by simp [chars]
    have hbar : Token.width ((l.chars ++ ['|']).map alone) = l.width + 1 := by
      rw [List.map_append, width_append, width_chars hl]
      rfl
    have hleft : closings ((l.chars ++ ['|']).map alone) = closings (l.chars.map alone) := by
      rw [List.map_append, closings_append]
      exact List.append_nil _
    have hfront : ∀ j, l.required.count j < (closings ((l.chars ++ ['|']).map alone)).count j →
        HasDoubleStar (l.chars ++ ['|']) j := fun j hj => by
      rw [hleft] at hj
      simpa using (ihl hl hj).append [] ['|']
    rw [hsplit] at hk ⊢
    exact hasDoubleStar_append hbar hfront (fun _ => hasDoubleStar_bracketIf hr (ihr hr)) hk
  | concat l r ihl ihr =>
    obtain ⟨hl, hr⟩ := List.forall_mem_append.1 h
    have hwidth : Token.width ((bracketIf (l.strength < 1) l.chars).map alone) = l.width := by
      rw [width_bracketIf, width_chars hl]
    exact hasDoubleStar_append hwidth (fun _ => hasDoubleStar_bracketIf hl (ihl hl))
      (fun _ => hasDoubleStar_bracketIf hr (ihr hr)) hk
  | star r ih =>
    have hr : r.IsPlain := h
    have hsign : closings ((star r).chars.map alone) =
        closings ((bracketIf (r.strength < 3) r.chars).map alone) := by
      rw [chars, List.map_append, closings_append]
      exact List.append_nil _
    rw [hsign, required] at hk
    by_cases hstrength : r.strength = 2
    · cases r with
      | star s => exact hasDoubleStar_star_star hr (ih hr) hk
      | _ => cases hstrength
    · have hsame : decide (r.strength < 2) = decide (r.strength < 3) :=
        decide_eq_decide.2 (by omega)
      rw [hsame] at hk
      exact (hasDoubleStar_bracketIf hr (ih hr) hk).star

/-! ### What is read without brackets -/

/-- Every place is good for the tokens of a phrase. -/
def unplaced (ts : List Token) : List (Nat × Token) := ts.map fun t => (0, t)

/-- Forgetting the places gives the tokens back. -/
theorem map_snd_unplaced (ts : List Token) : (unplaced ts).map Prod.snd = ts := by
  simp [unplaced, Function.comp_def]

/-- Two lists of tokens are placed one after the other. -/
theorem unplaced_append (us vs : List Token) :
    unplaced (us ++ vs) = unplaced us ++ unplaced vs :=
  List.map_append

/-- A pattern with a token is a phrase. -/
theorem IsPattern.phrase (h : IsPattern ts r) (hts : ts ≠ []) : Phrase .choice ts r := by
  cases h with
  | empty => exact absurd rfl hts
  | choice h => exact h

/-- **Brackets around a repetition mean nothing.** -/
theorem IsPattern.without_brackets (hvs : Phrase .repetition vs s)
    (h : IsPattern (us ++ .opening :: vs ++ .closing :: ws) r) : IsPattern (us ++ vs ++ ws) r := by
  have hgroup : Phrase .operand (.opening :: vs ++ [.closing]) s :=
    .group (hvs.weaken (by decide))
  have hsplit : us ++ .opening :: vs ++ .closing :: ws =
      us ++ ((.opening :: vs ++ [.closing]) ++ ws) := by simp
  rw [hsplit] at h
  obtain ⟨alternatives, factors, last, hread, rfl⟩ :=
    (h.phrase (by simp)).takesIn _ (map_snd_unplaced _) []
  rw [unplaced_append, unplaced_append] at hread
  obtain ⟨⟨g, outer⟩, hus, hread⟩ := Reader.exists_of_feedAll_append hread
  obtain ⟨reader, hin, hws⟩ := Reader.exists_of_feedAll_append hread
  -- with and without the brackets, the repetition is one more operand
  obtain rfl := Except.ok.inj (hin.symm.trans (hgroup.takesIn _ (map_snd_unplaced _) g outer))
  have hvs := hvs.takesIn _ (map_snd_unplaced vs) g outer
  have hall : Reader.initial.feedAll (unplaced (us ++ vs ++ ws)) =
      .ok ⟨.item alternatives factors last, []⟩ := by
    rw [Reader.initial, unplaced_append, unplaced_append, List.append_assoc,
      Reader.feedAll_append hus, Reader.feedAll_append hvs, hws]
  have hholds := (Reader.Holds.outermost .fresh).feedAll hall
  rw [map_snd_unplaced, List.nil_append] at hholds
  exact hholds.isPattern (n := 0) rfl

/-- A pattern for a repetition is a phrase of its layer. -/
theorem IsPattern.repetition (h : IsPattern ts (.star s)) : Phrase .repetition ts (.star s) := by
  cases h with
  | choice h =>
    cases h with
    | sequence h =>
      cases h with
      | repetition h => exact h

/-! ### Minimal brackets -/

/-- A `)` between two stars is told apart by its place. -/
theorem eq_of_places {front : List Char}
    (heq : cs ++ ')' :: after = (front ++ ['*']) ++ ')' :: '*' :: ds)
    (hwidth : Token.width (cs.map alone) = Token.width ((front ++ ['*']).map alone)) :
    cs = front ++ ['*'] ∧ after = '*' :: ds := by
  rcases List.append_eq_append_iff.1 heq with ⟨ks, hks, hrest⟩ | ⟨ks, hks, hrest⟩
  · rcases List.eq_nil_or_concat ks with rfl | ⟨ks, k, rfl⟩
    · exact ⟨((List.append_nil cs).symm.trans hks.symm), (List.cons.inj hrest).2⟩
    · -- what ends with a star is not without width
      rw [hks, List.map_append, width_append] at hwidth
      rw [List.concat_eq_append, ← List.append_assoc] at hks
      obtain ⟨-, hk⟩ := List.append_inj' hks rfl
      obtain rfl := (List.cons.inj hk).1
      simp at hwidth
  · rcases ks with _ | ⟨k, _ | ⟨k', ks⟩⟩
    · exact ⟨hks.trans (List.append_nil _), (List.cons.inj hrest).2.symm⟩
    · cases (List.cons.inj (List.cons.inj hrest).2).1
    · -- neither is what a star stands in
      obtain rfl := (List.cons.inj (List.cons.inj hrest).2).1
      rw [hks, List.map_append, width_append] at hwidth
      simp at hwidth

/-- The tokens of a text with a pair of brackets have the pair. -/
theorem map_alone_pair (before inner after : List Char) :
    (before ++ '(' :: inner ++ ')' :: after).map alone =
      before.map alone ++ .opening :: inner.map alone ++ .closing :: after.map alone := by
  simp [alone, classify]

/-- The brackets that a text can do without are around a repetition that is repeated. -/
theorem eq_star_of_isPattern (h : r.IsPlain) (hinner : Text.Balanced inner)
    (hchars : r.chars = before ++ '(' :: inner ++ ')' :: after)
    (hpattern : IsPattern ((before ++ inner ++ after).map alone) r) :
    ∃ s rest, s.IsPlain ∧ inner = (star s).chars ∧ after = '*' :: rest := by
  have hwidth : Token.width ((before ++ inner ++ after).map alone) = r.width := by
    rw [← width_chars h, hchars, map_alone_pair, width_pair, List.map_append, List.map_append]
  have hne : (before ++ inner ++ after).map alone ≠ [] := by
    intro hnil
    rw [hnil] at hwidth
    exact (Nat.ne_of_lt r.width_pos) hwidth
  have hrequired : r.required.Sublist (closings ((before ++ inner ++ after).map alone)) :=
    (hpattern.phrase hne).required_sublist.2 hwidth
  -- one `)` is gone, and still there are enough of them
  have hcount : r.required.count (Token.width ((before ++ inner).map alone)) <
      (closings (r.chars.map alone)).count (Token.width ((before ++ inner).map alone)) := by
    rw [hchars, map_alone_pair, (closings_pair_perm _ _ _).count_eq, List.map_append,
      List.count_cons_self, ← List.map_append, ← List.map_append]
    exact Nat.lt_succ_of_le (hrequired.count_le _)
  obtain ⟨front, s, rest, hs, hfound, hplace⟩ := hasDoubleStar_of_count_lt h hcount
  have hbody : (star s).chars = bracketIf (s.strength < 3) s.chars ++ ['*'] := rfl
  have heq : before ++ '(' :: inner ++ ')' :: after =
      (front ++ '(' :: bracketIf (s.strength < 3) s.chars ++ ['*']) ++ ')' :: '*' :: rest := by
    rw [← hchars, hfound, hbody]
    simp
  have hplaces : Token.width ((before ++ '(' :: inner).map alone) =
      Token.width ((front ++ '(' :: bracketIf (s.strength < 3) s.chars ++ ['*']).map alone) := by
    rw [hbody] at hplace
    simp only [List.map_append, List.map_cons, width_append, width_cons, weight_opening]
      at hplace ⊢
    omega
  obtain ⟨hsame, rfl⟩ := eq_of_places heq hplaces
  obtain ⟨-, rfl⟩ := hinner.eq_of_append_eq (balanced_chars (r := star s) hs)
    (hsame.trans (by rw [hbody, List.append_assoc, List.cons_append]))
  exact ⟨s, rest, hs, rfl, rfl⟩

/-- **Brackets can be left out of a text exactly if they are around a repetition that is
repeated.** -/
theorem parse_without_brackets_iff (before inner after : List Char) (h : r.IsPlain)
    (hinner : Text.Balanced inner)
    (htext : r.text = String.ofList (before ++ '(' :: inner ++ ')' :: after)) :
    parse (String.ofList (before ++ inner ++ after)) = .ok r ↔
      ∃ s rest, parse (String.ofList inner) = .ok (star s) ∧ after = '*' :: rest := by
  have hchars : r.chars = before ++ '(' :: inner ++ ')' :: after := String.ofList_injective htext
  have hin : ∀ c ∈ inner, c ∈ r.chars := fun c hc => by simp [hchars, hc]
  have hall : ∀ c ∈ before ++ inner ++ after, c ∈ r.chars := fun c hc => by
    simp only [List.mem_append] at hc
    rw [hchars]
    simp
    tauto
  have hparse : ∀ {cs : List Char} {e : Regex}, (∀ c ∈ cs, c ∈ r.chars) →
      (parse (String.ofList cs) = .ok e ↔ IsPattern (cs.map alone) e) := fun hcs => by
    rw [parse_eq_ok_iff, String.toList_ofList, read_eq_ok_iff,
      denotes_iff_alone fun c hc => h.chars c (hcs c hc)]
  rw [hparse hall]
  constructor
  · intro hpattern
    obtain ⟨s, rest, hs, rfl, rfl⟩ := eq_star_of_isPattern h hinner hchars hpattern
    exact ⟨s, rest, parse_text_of_isPlain (r := star s) hs, rfl⟩
  · rintro ⟨s, rest, hs, -⟩
    have hinside : Phrase .repetition (inner.map alone) (star s) := ((hparse hin).1 hs).repetition
    have htokens : IsPattern (r.chars.map alone) r := (denotes_iff_alone h.chars).1 h.denotes
    rw [hchars, map_alone_pair] at htokens
    rw [List.map_append, List.map_append]
    exact htokens.without_brackets hinside

/-- Repetitions with every sort of operand: a choice in brackets, a symbol, and a repetition. -/
def repetitions : Regex :=
  .concat (.star (.union (.symbol 'a') (.symbol 'b'))) (.star (.star (.symbol 'c')))

/-- The hypotheses of `parse_without_brackets_iff` are satisfiable: the text has two pairs of
brackets, and the second one only can be left out. -/
theorem parse_repetitions_without_brackets :
    repetitions.text = "(a|b)*(c*)*" ∧ parse "a|b*(c*)*" ≠ .ok repetitions ∧
      parse "(a|b)*c**" = .ok repetitions := by
  have hplain : repetitions.IsPlain := List.all_eq_true.1 rfl
  have htext : repetitions.text = "(a|b)*(c*)*" := rfl
  have hbalanced : Text.Balanced ['a', '|', 'b'] :=
    .char (by decide) (by decide) (.char (by decide) (by decide)
      (.char (by decide) (by decide) .nil))
  have hbalanced' : Text.Balanced ['c', '*'] :=
    .char (by decide) (by decide) (.char (by decide) (by decide) .nil)
  have hneeded := parse_without_brackets_iff [] _ "*(c*)*".toList hplain hbalanced htext
  have hidle := parse_without_brackets_iff "(a|b)*".toList _ ['*'] hplain hbalanced' htext
  refine ⟨htext, ?_, ?_⟩
  · intro h
    obtain ⟨s, rest, hs, -⟩ := hneeded.1 h
    cases hs
  · exact hidle.2 ⟨.symbol 'c', [], rfl, rfl⟩

/-- Not all brackets of a text are needed: without them `(a*)*` reads as the same expression. -/
theorem not_forall_parse_without_brackets :
    ¬ ∀ (r : Regex) (before inner after : List Char), r.IsPlain → Text.Balanced inner →
      r.text = String.ofList (before ++ '(' :: inner ++ ')' :: after) →
        parse (String.ofList (before ++ inner ++ after)) ≠ .ok r := by
  intro h
  have hbalanced : Text.Balanced ['a', '*'] :=
    .char (by decide) (by decide) (.char (by decide) (by decide) .nil)
  have hplain : (star (star (symbol 'a'))).IsPlain := List.all_eq_true.1 rfl
  exact h _ [] ['a', '*'] ['*'] hplain hbalanced rfl rfl

end Regex
end LanguageForms
