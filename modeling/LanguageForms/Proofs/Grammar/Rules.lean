/-
# Rules of a grammar as they are written and read

The rule of a head is written with all its alternatives (`ruleChars`).  If the sorts of
the symbols can be seen, the bodies are read as they were (`splitWhere_bodiesChars`),
and so is the rule (`readRule_ruleChars`), with one exception: an arrow of two
characters in a body is taken for the arrow of the rule, and the rule is refused
(`readRule_ruleChars_of_arrow`).

On the other hand, whatever rule is read, the symbols of its bodies stand for
themselves (`isVisible_of_readRule`).
-/
import LanguageForms.Grammar.Legible
import LanguageForms.Proofs.Text.Split

namespace LanguageForms

namespace Production

variable {p : Production} {c : Char}

/-- The head is an uppercase letter, and the symbols of the body stand for themselves. -/
def IsLegible (p : Production) : Prop :=
  Grammar.isUppercase p.head = true ∧ ∀ c ∈ p.body, Grammar.isVisible c = true

/-- A body without symbols is written as `ε`. -/
theorem toList_bodyText (p : Production) :
    p.bodyText.toList = if p.body = [] then ['ε'] else p.body := by
  cases hbody : p.body <;> simp [bodyText, Text.symbolsOrEmpty, hbody]

/-- A body is not written as nothing. -/
theorem bodyText_ne_nil (p : Production) : p.bodyText.toList ≠ [] := by
  rw [toList_bodyText]
  split
  · exact List.cons_ne_nil _ _
  · assumption

/-- A legible body is written without blanks, bars and semicolons. -/
theorem IsLegible.of_mem_bodyText (h : p.IsLegible) (hc : c ∈ p.bodyText.toList) :
    Text.isBlank c = false ∧ c ≠ '|' ∧ c ≠ ';' := by
  rw [toList_bodyText] at hc
  split at hc
  · rw [List.mem_singleton.1 hc]
    decide
  · obtain ⟨hblank, -, hbar, hsemicolon⟩ := Grammar.isVisible_eq_true_iff.1 (h.2 c hc)
    exact ⟨hblank, hbar, hsemicolon⟩

/-- A written body is read as it was. -/
theorem IsLegible.readBody_bodyText (h : p.IsLegible) :
    Grammar.readBody p.bodyText.toList = p.body := by
  rw [toList_bodyText]
  split
  · next hbody =>
    rw [hbody]
    rfl
  · rw [Grammar.readBody, List.filter_eq_self]
    intro c hc
    obtain ⟨hblank, hempty, -⟩ := Grammar.isVisible_eq_true_iff.1 (h.2 c hc)
    simp [hblank, hempty]

/-- The arrow is not hidden in the sign for nothing. -/
theorem plainArrow_infix_bodyText_iff :
    Grammar.plainArrow <:+: p.bodyText.toList ↔ Grammar.plainArrow <:+: p.body := by
  rw [toList_bodyText]
  split
  · next hbody =>
    rw [hbody]
    decide
  · rfl

end Production

namespace Grammar

variable {g k : Grammar} {p : Production} {ps : List Production} {c head : Char}
  {rule bodies : List Char}

/-! ### Rules as they are written -/

/-- The bodies of some productions as they are written in a rule. -/
def bodiesChars (ps : List Production) : List Char :=
  [' ', '|', ' '].intercalate (ps.map fun p => p.bodyText.toList)

/-- A rule as it is written. -/
def ruleChars (head : Char) (ps : List Production) : List Char :=
  head :: ' ' :: '→' :: ' ' :: bodiesChars ps

/-- A rule is written as its characters. -/
theorem toList_ruleText (g : Grammar) (head : Char) :
    (g.ruleText head).toList = ruleChars head (g.productionsOf head) := by
  have harrow : (" → ").toList = [' ', '→', ' '] := rfl
  have hbar : (" | ").toList = [' ', '|', ' '] := rfl
  rw [ruleText, String.toList_append, String.toList_append, Text.toList_separated, harrow, hbar,
    List.map_map]
  simp [Text.symbol, ruleChars, bodiesChars, Function.comp_def]

/-- A single body is written as it is. -/
theorem bodiesChars_singleton (p : Production) : bodiesChars [p] = p.bodyText.toList := by
  simp [bodiesChars]

/-- Bodies are written with a bar between blanks. -/
theorem bodiesChars_cons (p q : Production) (ps : List Production) :
    bodiesChars (p :: q :: ps) =
      (p.bodyText.toList ++ [' ']) ++ '|' :: (' ' :: bodiesChars (q :: ps)) := by
  simp [bodiesChars]

/-- What a rule is written with: blanks and separators apart, the characters of its bodies. -/
theorem of_mem_bodiesChars (h : ∀ p ∈ ps, p.IsLegible) (hc : c ∈ bodiesChars ps) :
    c = ' ' ∨ c = '|' ∨ (Text.isBlank c = false ∧ c ≠ ';') := by
  induction ps with
  | nil => cases hc
  | cons p ps ih =>
    rw [List.forall_mem_cons] at h
    have hbody : c ∈ p.bodyText.toList → Text.isBlank c = false ∧ c ≠ ';' := fun hc =>
      (h.1.of_mem_bodyText hc).imp_right And.right
    cases ps with
    | nil =>
      rw [bodiesChars_singleton] at hc
      exact .inr (.inr (hbody hc))
    | cons q ps =>
      rw [bodiesChars_cons] at hc
      simp only [List.mem_append, List.mem_cons, List.not_mem_nil, or_false] at hc
      rcases hc with (hc | rfl) | rfl | rfl | hc
      · exact .inr (.inr (hbody hc))
      · exact .inl rfl
      · exact .inr (.inl rfl)
      · exact .inl rfl
      · exact ih h.2 hc

/-- Some bodies are not written as nothing. -/
theorem bodiesChars_ne_nil (h : ps ≠ []) : bodiesChars ps ≠ [] := by
  obtain ⟨p, ps, rfl⟩ := List.exists_cons_of_ne_nil h
  cases ps with
  | nil =>
    rw [bodiesChars_singleton]
    exact p.bodyText_ne_nil
  | cons q ps =>
    rw [bodiesChars_cons]
    simp

/-- A rule ends with a character that is no blank. -/
theorem isBlank_getLast?_bodiesChars (h : ∀ p ∈ ps, p.IsLegible) :
    ∀ c ∈ (bodiesChars ps).getLast?, Text.isBlank c = false := by
  induction ps with
  | nil => exact fun c hc => nomatch hc
  | cons p ps ih =>
    rw [List.forall_mem_cons] at h
    cases ps with
    | nil =>
      rw [bodiesChars_singleton]
      exact fun c hc => (h.1.of_mem_bodyText (List.mem_of_getLast? hc)).1
    | cons q ps =>
      have hne := bodiesChars_ne_nil (List.cons_ne_nil q ps)
      rw [bodiesChars_cons, List.getLast?_append_cons, List.getLast?_cons_cons,
        List.getLast?_cons_of_ne_nil hne]
      exact ih h.2

/-- A written rule has no blanks at its ends. -/
theorem trim_ruleChars (hne : ps ≠ []) (hhead : isUppercase head = true)
    (h : ∀ p ∈ ps, p.IsLegible) : Text.trim (ruleChars head ps) = ruleChars head ps := by
  refine Text.trim_eq_self ?_ ?_
  · rintro c hc
    obtain rfl := Option.some.inj hc
    exact isBlank_of_isUppercase hhead
  · intro c hc
    rw [ruleChars, List.getLast?_cons_cons, List.getLast?_cons_cons, List.getLast?_cons_cons,
      List.getLast?_cons_of_ne_nil (bodiesChars_ne_nil hne)] at hc
    exact isBlank_getLast?_bodiesChars h c hc

/-- No rule ends within a written rule. -/
theorem ends_ruleChars (hhead : isUppercase head = true) (h : ∀ p ∈ ps, p.IsLegible) :
    ∀ c ∈ ruleChars head ps, (c == '\n' || c == ';') = false := by
  intro c hc
  have hends : Text.isBlank c = false ∧ c ≠ ';' → (c == '\n' || c == ';') = false := by
    rintro ⟨hblank, hsemicolon⟩
    have hline : c ≠ '\n' := by
      rintro rfl
      exact absurd hblank (by decide)
    simp [hline, hsemicolon]
  simp only [ruleChars, List.mem_cons] at hc
  rcases hc with rfl | rfl | rfl | rfl | hc
  · exact hends ⟨isBlank_of_isUppercase hhead, ne_of_isUppercase hhead rfl⟩
  · rfl
  · rfl
  · rfl
  · rcases of_mem_bodiesChars h hc with rfl | rfl | hc
    · rfl
    · rfl
    · exact hends hc

/-! ### Reading a rule -/

/-- A body is read symbol by symbol. -/
theorem readBody_append (u v : List Char) : readBody (u ++ v) = readBody u ++ readBody v :=
  List.filter_append u v

/-- **The bodies are read as they were.** -/
theorem splitWhere_bodiesChars (hne : ps ≠ []) (h : ∀ p ∈ ps, p.IsLegible) :
    (Text.splitWhere (· == '|') (' ' :: bodiesChars ps)).map readBody = ps.map (·.body) := by
  have hblank : readBody [' '] = [] := rfl
  induction ps with
  | nil => exact absurd rfl hne
  | cons p ps ih =>
    rw [List.forall_mem_cons] at h
    have hbar : ∀ c ∈ p.bodyText.toList, (c == '|') = false := fun c hc =>
      beq_eq_false_iff_ne.2 (h.1.of_mem_bodyText hc).2.1
    cases ps with
    | nil =>
      have hpiece : ∀ c ∈ [' '] ++ p.bodyText.toList, (c == '|') = false := by
        intro c hc
        rcases List.mem_append.1 hc with hc | hc
        · rw [List.mem_singleton.1 hc]
          rfl
        · exact hbar c hc
      rw [bodiesChars_singleton, ← List.singleton_append, Text.splitWhere_eq_singleton hpiece,
        List.map_singleton, readBody_append, hblank, h.1.readBody_bodyText]
      rfl
    | cons q ps =>
      have hpiece : ∀ c ∈ [' '] ++ p.bodyText.toList ++ [' '], (c == '|') = false := by
        intro c hc
        simp only [List.mem_append, List.mem_singleton] at hc
        rcases hc with (rfl | hc) | rfl
        · rfl
        · exact hbar c hc
        · rfl
      have hrest := ih (List.cons_ne_nil q ps) h.2
      rw [bodiesChars_cons, ← List.cons_append, ← List.singleton_append, ← List.append_assoc,
        Text.splitWhere_append_cons hpiece rfl, List.map_cons, hrest, readBody_append,
        readBody_append, hblank, h.1.readBody_bodyText, List.append_nil]
      rfl

/-- An arrow of two characters in a written rule stands in one of its bodies. -/
theorem plainArrow_infix_bodiesChars_iff :
    plainArrow <:+: ' ' :: bodiesChars ps ↔ ∃ p ∈ ps, plainArrow <:+: p.body := by
  have harrow : plainArrow ≠ [] := List.cons_ne_nil _ _
  rw [← List.singleton_append, Text.infix_append_iff_of_skip harrow (by simp [plainArrow]),
    bodiesChars, Text.infix_intercalate_iff harrow (List.cons_ne_nil _ _) (by simp [plainArrow])]
  simp only [List.mem_map, exists_exists_and_eq_and, Production.plainArrow_infix_bodyText_iff]

section Cut

variable (hhead : isUppercase head = true)
include hhead

/-- A rule that is cut behind its head is read. -/
theorem readRule_of_cut (hcut : cutArrow? rule = some ([head, ' '], bodies)) :
    readRule rule =
      .ok ((Text.splitWhere (· == '|') bodies).map fun body => ⟨head, readBody body⟩) := by
  have htrim : Text.trim [head, ' '] = [head] := by
    have hblank := isBlank_of_isUppercase hhead
    have hspace : Text.isBlank ' ' = true := rfl
    simp [Text.trim, Text.trimRight, hblank, hspace]
  simp only [readRule, hcut, htrim]

/-- A rule with the arrow of one character has the other arrow if its bodies have. -/
theorem plainArrow_infix_sign_iff :
    plainArrow <:+: head :: ' ' :: '→' :: bodies ↔ plainArrow <:+: bodies := by
  have hfront : ∀ c ∈ [head, ' ', '→'], c ∉ plainArrow := by
    have hsigns : ∀ c ∈ [' ', '→'], c ∉ plainArrow := by simp [plainArrow]
    have hlower : ∀ c ∈ plainArrow, isUppercase c = false := by
      simp [plainArrow, isUppercase]
    intro c hc
    rcases List.mem_cons.1 hc with rfl | hc
    · exact fun hmem => ne_of_isUppercase hhead (hlower c hmem) rfl
    · exact hsigns c hc
  exact Text.infix_append_iff_of_skip (List.cons_ne_nil _ _) hfront

/-- Without an arrow of two characters a rule is cut behind its head. -/
theorem cutArrow?_sign (harrow : ¬ plainArrow <:+: bodies) :
    cutArrow? (head :: ' ' :: '→' :: bodies) = some ([head, ' '], bodies) := by
  have hplain : Text.cut? plainArrow (head :: ' ' :: '→' :: bodies) = none :=
    Text.cut?_eq_none_iff.2 fun hinfix => harrow ((plainArrow_infix_sign_iff hhead).1 hinfix)
  have hne : '→' ≠ head := (ne_of_isUppercase hhead rfl).symm
  have hsign : '→' ∉ [head, ' '] := by simp [hne]
  rw [cutArrow?, hplain, Option.none_or]
  exact Text.cut?_singleton hsign

/-- With an arrow of two characters in a body, what is taken for the head has the arrow of the rule
in it. -/
theorem exists_cutArrow?_sign (harrow : plainArrow <:+: bodies) :
    ∃ front rest,
      cutArrow? (head :: ' ' :: '→' :: bodies) = some (head :: ' ' :: '→' :: front, rest) := by
  have hinfix := (plainArrow_infix_sign_iff hhead).2 harrow
  have hsome : Text.cut? plainArrow (head :: ' ' :: '→' :: bodies) ≠ none := fun hnone =>
    Text.cut?_eq_none_iff.1 hnone hinfix
  obtain ⟨⟨front, rest⟩, hcut⟩ := Option.ne_none_iff_exists'.1 hsome
  have hrule : head :: ' ' :: '→' :: bodies = front ++ plainArrow ++ rest := Text.eq_of_cut? hcut
  have hcutArrow : cutArrow? (head :: ' ' :: '→' :: bodies) = some (front, rest) := by
    rw [cutArrow?, hcut, Option.some_or]
  -- the first characters of the rule are not those of the arrow, so they stand in front of it
  simp only [plainArrow] at hrule
  rcases front with _ | ⟨a, _ | ⟨b, _ | ⟨c, front⟩⟩⟩
  · obtain ⟨hdash, -⟩ := List.cons.inj hrule
    exact absurd hdash (ne_of_isUppercase hhead rfl)
  · simp at hrule
  · simp at hrule
  · simp only [List.cons_append, List.cons.injEq] at hrule
    obtain ⟨rfl, rfl, rfl, -⟩ := hrule
    exact ⟨front, rest, hcutArrow⟩

/-- **An arrow of two characters in a body is taken for the arrow of the rule**, and then more than
a head stands before it. -/
theorem readRule_sign_of_arrow (harrow : plainArrow <:+: bodies) :
    readRule (head :: ' ' :: '→' :: bodies) =
      .error (.unreadableRule (head :: ' ' :: '→' :: bodies)) := by
  obtain ⟨front, rest, hcut⟩ := exists_cutArrow?_sign hhead harrow
  have hlong : ∀ c, Text.trim (head :: ' ' :: '→' :: front) ≠ [c] := by
    intro c htrim
    have hblank := isBlank_of_isUppercase hhead
    have hspace : Text.isBlank ' ' = true := rfl
    have hsign : Text.isBlank '→' = false := rfl
    have hvisible := congrArg List.length (Text.filter_trim (head :: ' ' :: '→' :: front))
    have hone := List.length_filter_le (fun c => !Text.isBlank c) [c]
    rw [htrim] at hvisible
    simp [hblank, hspace, hsign] at hvisible hone
    omega
  rw [readRule, hcut]
  dsimp only
  split
  · next c htrim => exact absurd htrim (hlong c)
  · rfl

/-- **A written rule is read as it was** if there is no arrow of two characters in its bodies. -/
theorem readRule_ruleChars (hne : ps ≠ []) (h : ∀ p ∈ ps, p.IsLegible)
    (hps : ∀ p ∈ ps, p.head = head) (harrow : ¬ ∃ p ∈ ps, plainArrow <:+: p.body) :
    readRule (ruleChars head ps) = .ok ps := by
  have hcut := cutArrow?_sign hhead fun hinfix => harrow (plainArrow_infix_bodiesChars_iff.1 hinfix)
  have hbodies : (Text.splitWhere (· == '|') (' ' :: bodiesChars ps)).map
      (fun body => (⟨head, readBody body⟩ : Production)) = ps := by
    have hmk : ∀ bodies : List (List Char), bodies.map
        (fun body => (⟨head, readBody body⟩ : Production)) =
          (bodies.map readBody).map (Production.mk head) := fun bodies => by
      rw [List.map_map]
      rfl
    rw [hmk, splitWhere_bodiesChars hne h, List.map_map]
    refine (List.map_congr_left fun p hp => ?_).trans (List.map_id ps)
    rw [Function.comp_apply, ← hps p hp, id]
  rw [ruleChars, readRule_of_cut hhead hcut, hbodies]

/-- A written rule with an arrow of two characters in a body is refused. -/
theorem readRule_ruleChars_of_arrow (harrow : ∃ p ∈ ps, plainArrow <:+: p.body) :
    readRule (ruleChars head ps) = .error (.unreadableRule (ruleChars head ps)) :=
  readRule_sign_of_arrow hhead (plainArrow_infix_bodiesChars_iff.2 harrow)

end Cut

/-- A rule is cut into what is before its arrow and what is behind it. -/
theorem eq_of_cutArrow? {front : List Char}
    (h : cutArrow? rule = some (front, bodies)) : ∃ arrow, rule = front ++ arrow ++ bodies := by
  rcases Option.or_eq_some_iff.1 h with h | ⟨-, h⟩
  · exact ⟨plainArrow, Text.eq_of_cut? h⟩
  · exact ⟨signArrow, Text.eq_of_cut? h⟩

/-- A symbol of a body that is read stands for itself. -/
theorem isVisible_of_readRule (hrule : readRule rule = .ok ps)
    (hsemicolon : ';' ∉ rule) (hp : p ∈ ps) (hc : c ∈ p.body) : isVisible c = true := by
  rw [readRule] at hrule
  split at hrule
  · cases hrule
  · next front bodies hcut =>
    split at hrule
    · cases hrule
      obtain ⟨body, hbody, rfl⟩ := List.mem_map.1 hp
      have hbody : body ∈ Text.splitWhere (· == '|') bodies := hbody
      obtain ⟨hmem, hc⟩ := List.mem_filter.1 hc
      have hbar := Text.eq_false_of_mem_splitWhere hbody hmem
      have hbodies : c ∈ bodies := Text.mem_of_mem_splitWhere hbody hmem
      have hne : c ≠ ';' := by
        rintro rfl
        obtain ⟨arrow, rfl⟩ := eq_of_cutArrow? hcut
        exact hsemicolon (List.mem_append_right _ hbodies)
      simp only [Bool.and_eq_true, Bool.not_eq_true', beq_eq_false_iff_ne] at hc hbar
      exact isVisible_eq_true_iff.2 ⟨hc.1, hc.2, hbar, hne⟩
    · cases hrule

/-! ### Reading rules -/

/-- Rules that can each be read are read one after the other. -/
theorem readRules_map {rule : Char → List Char} {read : Char → List Production}
    {heads : List Char} (h : ∀ head ∈ heads, readRule (rule head) = .ok (read head)) :
    readRules (heads.map rule) = .ok (heads.flatMap read) := by
  induction heads with
  | nil => rfl
  | cons head heads ih =>
    rw [List.forall_mem_cons] at h
    simp only [List.map_cons, readRules, h.1, ih h.2, List.flatMap_cons]

/-- Every rule is read, and gives some of the productions. -/
theorem exists_of_readRules {rules : List (List Char)} (h : readRules rules = .ok ps) :
    (∀ rule ∈ rules, ∃ qs, readRule rule = .ok qs) ∧
      ∀ p ∈ ps, ∃ rule ∈ rules, ∃ qs, readRule rule = .ok qs ∧ p ∈ qs := by
  induction rules generalizing ps with
  | nil =>
    cases h
    exact ⟨by simp, by simp⟩
  | cons rule rules ih =>
    rw [readRules] at h
    cases hrule : readRule rule with
    | error d =>
      rw [hrule] at h
      cases h
    | ok qs =>
      cases hrules : readRules rules with
      | error d =>
        rw [hrule, hrules] at h
        cases h
      | ok rest =>
        rw [hrule, hrules] at h
        cases h
        obtain ⟨hread, hfrom⟩ := ih hrules
        refine ⟨List.forall_mem_cons.2 ⟨⟨qs, hrule⟩, hread⟩, fun p hp => ?_⟩
        rcases List.mem_append.1 hp with hp | hp
        · exact ⟨rule, List.mem_cons_self, qs, hrule, hp⟩
        · obtain ⟨rule', hmem, hp⟩ := hfrom p hp
          exact ⟨rule', List.mem_cons_of_mem rule hmem, hp⟩

/-- A rule has no semicolon. -/
theorem semicolon_notMem_of_mem_rulesOf {cs rule : List Char} (hrule : rule ∈ rulesOf cs) :
    ';' ∉ rule := by
  intro hsemicolon
  obtain ⟨piece, hpiece, rfl⟩ := List.mem_map.1 (List.mem_of_mem_filter hrule)
  have hend := Text.eq_false_of_mem_splitWhere hpiece (Text.mem_of_mem_trim hsemicolon)
  exact absurd hend (by decide)

end Grammar
end LanguageForms
