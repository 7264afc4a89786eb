/-
# Text that is put together and taken apart

Items are written with a separator between them and read by cutting the text again.
If the separator does not occur in the items, the pieces are the items
(`splitWhere_intercalate`), and a word without characters of the separator is part
of the text exactly if it is part of an item (`infix_intercalate_iff`).

A cut is made at the first occurrence of its separator, and there is none exactly if
the separator is no part of the text (`cut?_eq_none_iff`).  Trimming changes nothing
between two characters that are no blanks (`trim_eq_self`) and loses none of these
(`filter_trim`).
-/
import LanguageForms.Text.Collection
import LanguageForms.Text.Split
import Mathlib.Data.List.DropRight
import Mathlib.Data.List.TakeWhile

namespace LanguageForms
namespace Text

variable {p q : Char → Bool} {c x : Char} {cs word front piece before after sep : List Char}
variable {pieces : List (List Char)}

/-! ### Separators -/

/-- The characters of a collection. -/
theorem toList_separated (sep : String) (items : List String) :
    (separated sep items).toList = sep.toList.intercalate (items.map String.toList) := by
  induction items with
  | nil => simp [separated]
  | cons s items ih =>
    cases items with
    | nil => simp [separated]
    | cons t items =>
      simp only [List.map_cons] at ih
      simp [separated, ih]

/-- What consists of other characters can be skipped in the search for a word. -/
theorem infix_append_iff_of_skip (hword : word ≠ []) (hfront : ∀ s ∈ front, s ∉ word) :
    word <:+: front ++ cs ↔ word <:+: cs := by
  induction front with
  | nil => rfl
  | cons s front ih =>
    have hs : s ∉ word := hfront s List.mem_cons_self
    have hbegin : ¬ word <+: s :: (front ++ cs) := by
      intro hprefix
      cases word with
      | nil => exact hword rfl
      | cons w word =>
        obtain ⟨rfl, -⟩ := List.cons_prefix_cons.1 hprefix
        exact hs List.mem_cons_self
    rw [List.cons_append, List.infix_cons_iff, or_iff_right hbegin]
    exact ih fun t ht => hfront t (List.mem_cons_of_mem s ht)

/-- A word without the character `c` stands on one side of it. -/
theorem infix_append_cons_iff (hc : c ∉ word) :
    word <:+: before ++ c :: after ↔ word <:+: before ∨ word <:+: after := by
  rw [List.infix_append_iff]
  constructor
  · rintro (h | h | ⟨u, v, rfl, hu, hv⟩)
    · exact .inl h
    · rcases List.infix_cons_iff.1 h with h | h
      · cases word with
        | nil => exact .inl List.nil_infix
        | cons w word =>
          obtain ⟨rfl, -⟩ := List.cons_prefix_cons.1 h
          exact absurd List.mem_cons_self hc
      · exact .inr h
    · cases v with
      | nil => exact .inl (by simpa using hu.isInfix)
      | cons w v =>
        obtain ⟨rfl, -⟩ := List.cons_prefix_cons.1 hv
        exact absurd (List.mem_append_right u List.mem_cons_self) hc
  · rintro (h | h)
    · exact .inl h
    · exact .inr (.inl (List.infix_cons h))

/-- **A word is part of a collection exactly if it is part of an item**, if it has no character of
the separator. -/
theorem infix_intercalate_iff (hword : word ≠ []) (hsep : sep ≠ []) (h : ∀ s ∈ sep, s ∉ word) :
    word <:+: sep.intercalate pieces ↔ ∃ piece ∈ pieces, word <:+: piece := by
  obtain ⟨s, sep, rfl⟩ := List.exists_cons_of_ne_nil hsep
  induction pieces with
  | nil => simp [hword]
  | cons piece pieces ih =>
    cases pieces with
    | nil => simp
    | cons next pieces =>
      have hs : s ∉ word := h s List.mem_cons_self
      have hrest : ∀ t ∈ sep, t ∉ word := fun t ht => h t (List.mem_cons_of_mem s ht)
      rw [List.intercalate_cons_cons, List.append_assoc, List.cons_append,
        infix_append_cons_iff hs, infix_append_iff_of_skip hword hrest, ih]
      simp

/-! ### Pieces -/

/-- A character goes to the front of the first piece. -/
theorem consPiece_eq_modifyHead (h : pieces ≠ []) :
    consPiece c pieces = pieces.modifyHead (List.cons c) := by
  obtain ⟨piece, pieces, rfl⟩ := List.exists_cons_of_ne_nil h
  rfl

/-- The pieces are those of the library. -/
theorem splitWhere_eq_splitOnP (p : Char → Bool) (cs : List Char) :
    splitWhere p cs = cs.splitOnP p := by
  induction cs with
  | nil => rfl
  | cons c cs ih =>
    rw [splitWhere, consPiece_eq_modifyHead (splitWhere_ne_nil p cs), ih,
      List.splitOnP_cons_eq_if_modifyHead]

/-- A text without separators is one piece. -/
theorem splitWhere_eq_singleton (h : ∀ c ∈ cs, p c = false) : splitWhere p cs = [cs] := by
  rw [splitWhere_eq_splitOnP, List.splitOnP_eq_singleton h]

/-- The first piece ends at the first character that passes the test. -/
theorem splitWhere_append_cons (h : ∀ c ∈ piece, p c = false) (hc : p c = true) :
    splitWhere p (piece ++ c :: cs) = piece :: splitWhere p cs := by
  rw [splitWhere_eq_splitOnP, splitWhere_eq_splitOnP,
    List.splitOnP_append_cons_of_forall_mem h c hc]

/-- **The pieces of a collection are its items**, if the separator occurs in none of them. -/
theorem splitWhere_intercalate (hc : p c = true) (hpieces : pieces ≠ [])
    (h : ∀ piece ∈ pieces, ∀ x ∈ piece, p x = false) :
    splitWhere p ([c].intercalate pieces) = pieces := by
  induction pieces with
  | nil => exact absurd rfl hpieces
  | cons piece pieces ih =>
    have hpiece : ∀ x ∈ piece, p x = false := h piece List.mem_cons_self
    cases pieces with
    | nil => simpa using splitWhere_eq_singleton hpiece
    | cons next pieces =>
      have hrest := ih (List.cons_ne_nil next pieces) fun q hq =>
        h q (List.mem_cons_of_mem piece hq)
      rw [List.intercalate_cons_cons, List.append_assoc, List.cons_append, List.nil_append,
        splitWhere_append_cons hpiece hc, hrest]

/-- No character of a piece passes the test. -/
theorem eq_false_of_mem_splitWhere (hpiece : piece ∈ splitWhere p cs) (hx : x ∈ piece) :
    p x = false := by
  induction cs generalizing piece with
  | nil =>
    rw [List.mem_singleton.1 hpiece] at hx
    cases hx
  | cons c cs ih =>
    rw [splitWhere] at hpiece
    split at hpiece
    · rcases List.mem_cons.1 hpiece with rfl | hpiece
      · cases hx
      · exact ih hpiece hx
    · next hc =>
      rcases mem_consPiece hpiece hx with rfl | ⟨q, hq, hx⟩
      · exact Bool.eq_false_iff.2 hc
      · exact ih hq hx

/-- Dropping characters that separate nothing does so piece by piece. -/
theorem splitWhere_filter (h : ∀ c, p c = true → q c = true) :
    splitWhere p (cs.filter q) = (splitWhere p cs).map (List.filter q) := by
  induction cs with
  | nil => rfl
  | cons c cs ih =>
    obtain ⟨first, pieces, hpieces⟩ := List.exists_cons_of_ne_nil (splitWhere_ne_nil p cs)
    cases hc : p c with
    | true => simp [h c hc, splitWhere, hc, ih]
    | false =>
      cases hq : q c with
      | true => simp [hq, splitWhere, hc, ih, hpieces, consPiece]
      | false => simp [hq, splitWhere, hc, ih, hpieces, consPiece]

/-! ### Cuts -/

/-- A text cannot be cut behind what it does not begin with. -/
theorem after?_eq_none_iff : after? sep cs = none ↔ ¬ sep <+: cs := by
  rw [Option.eq_none_iff_forall_ne_some, ← not_exists]
  refine not_congr ⟨?_, ?_⟩
  · rintro ⟨rest, h⟩
    exact ⟨rest, (after?_eq_some.1 h).symm⟩
  · rintro ⟨rest, h⟩
    exact ⟨rest, after?_eq_some.2 h.symm⟩

/-- There is no cut exactly if the separator is no part of the text. -/
theorem cut?_eq_none_iff : cut? sep cs = none ↔ ¬ sep <:+: cs := by
  induction cs with
  | nil => rw [cut?, Option.map_eq_none_iff, after?_eq_none_iff, List.prefix_nil, List.infix_nil]
  | cons c cs ih =>
    rw [List.infix_cons_iff, not_or, ← after?_eq_none_iff, ← ih, cut?]
    cases after? sep (c :: cs) <;> simp

/-- A cut at a character is made at its first occurrence. -/
theorem cut?_singleton (h : c ∉ before) :
    cut? [c] (before ++ c :: after) = some (before, after) := by
  induction before with
  | nil => simp [cut?, after?]
  | cons b before ih =>
    have hb : c ≠ b := fun hcb => h (hcb ▸ List.mem_cons_self)
    have hrest := ih fun hc => h (List.mem_cons_of_mem b hc)
    simp [cut?, after?, hb, hrest]

/-! ### Blanks at the ends -/

/-- Blanks are dropped from the end. -/
theorem trimRight_eq_rdropWhile (cs : List Char) : trimRight cs = cs.rdropWhile isBlank := rfl

/-- A text that neither begins nor ends with a blank is not changed. -/
theorem trim_eq_self (hhead : ∀ c ∈ cs.head?, isBlank c = false)
    (hlast : ∀ c ∈ cs.getLast?, isBlank c = false) : trim cs = cs := by
  have hleft : cs.dropWhile isBlank = cs := by
    cases cs with
    | nil => rfl
    | cons c cs => simp [hhead c rfl]
  have hright : cs.rdropWhile isBlank = cs := by
    rw [List.rdropWhile_eq_self_iff]
    intro hne
    simp [hlast _ (List.getLast?_eq_getLast_of_ne_nil hne)]
  rw [trim, hleft, trimRight_eq_rdropWhile, hright]

/-- Dropping blanks from the front drops nothing visible. -/
theorem filter_dropWhile_isBlank (cs : List Char) :
    (cs.dropWhile isBlank).filter (fun c => !isBlank c) = cs.filter fun c => !isBlank c := by
  induction cs with
  | nil => rfl
  | cons c cs ih =>
    cases hc : isBlank c with
    | false => simp [hc]
    | true => simp [hc, ih]

/-- Dropping blanks from the end drops nothing visible. -/
theorem filter_trimRight (cs : List Char) :
    (trimRight cs).filter (fun c => !isBlank c) = cs.filter fun c => !isBlank c := by
  rw [trimRight, List.filter_reverse, filter_dropWhile_isBlank, List.filter_reverse,
    List.reverse_reverse]

/-- Nothing but blanks is lost. -/
theorem filter_trim (cs : List Char) :
    (trim cs).filter (fun c => !isBlank c) = cs.filter fun c => !isBlank c := by
  rw [trim, filter_trimRight, filter_dropWhile_isBlank]

/-- Behind a character that is no blank, the blanks at the end are those of what follows. -/
theorem trimRight_append_cons (hc : isBlank c = false) :
    trimRight (before ++ c :: after) = before ++ c :: trimRight after := by
  have hrest : ((before ++ [c]).reverse).dropWhile isBlank = (before ++ [c]).reverse := by
    simp [hc]
  rw [List.append_cons, trimRight, trimRight, List.reverse_append, List.dropWhile_append, hrest]
  split
  · next hnil => simp [List.isEmpty_iff.1 hnil]
  · simp

/-- A word without blanks is not touched. -/
theorem infix_trimRight_iff (hword : word ≠ []) (h : ∀ c ∈ word, isBlank c = false) :
    word <:+: trimRight cs ↔ word <:+: cs := by
  have hblank : ∀ c ∈ cs.reverse.takeWhile isBlank, c ∉ word.reverse := by
    intro c hc hmem
    have hfalse := h c (List.mem_reverse.1 hmem)
    rw [List.mem_takeWhile_imp hc] at hfalse
    cases hfalse
  have hskip : word.reverse <:+: cs.reverse.takeWhile isBlank ++ cs.reverse.dropWhile isBlank ↔
      word.reverse <:+: cs.reverse.dropWhile isBlank :=
    infix_append_iff_of_skip (List.reverse_ne_nil_iff.2 hword) hblank
  rw [List.takeWhile_append_dropWhile, List.reverse_infix] at hskip
  rw [hskip, trimRight, ← List.reverse_infix, List.reverse_reverse]

/-- What is trimmed has no new characters. -/
theorem mem_of_mem_trim (h : c ∈ trim cs) : c ∈ cs := by
  rw [trim, trimRight_eq_rdropWhile] at h
  have hleft : c ∈ cs.dropWhile isBlank := (List.rdropWhile_prefix isBlank _).subset h
  exact (List.dropWhile_sublist isBlank).mem hleft

end Text
end LanguageForms
