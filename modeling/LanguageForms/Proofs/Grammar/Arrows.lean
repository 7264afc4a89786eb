/-
# The two arrows of a rule

Written lines are cut into the rules that they are (`rulesOf_written`), and each rule
is read with its own head and body, whichever arrow it has, with one exception: behind
the arrow of one character the one of two characters is found first, and the rule is
refused (`readRule_trim_chars`).

So what is read depends on the arrows only as far as they hide an arrow in a body
(`read_written`), and two ways to write the same rules agree exactly if both of them
do, or none (`read_written_agree_iff`).
-/
import LanguageForms.Grammar.Written
import LanguageForms.Proofs.Grammar.RoundTrip

namespace LanguageForms
namespace Grammar

variable {l m : Line} {ls ms : List Line} {ps : List Production} {g : Grammar} {d : Defect}

/-! ### One line -/

/-- Blanks are no symbols. -/
theorem readBody_congr {u v : List Char}
    (h : u.filter (fun c => !Text.isBlank c) = v.filter fun c => !Text.isBlank c) :
    readBody u = readBody v := by
  have hvisible : ∀ cs, readBody cs =
      (cs.filter fun c => !Text.isBlank c).filter fun c => !(c == 'ε') := fun cs => by
    simp [readBody, Bool.and_comm]
  rw [hvisible, hvisible, h]

namespace Line

/-- What follows the arrow once the line is trimmed. -/
def rest (l : Line) : List Char := Text.trimRight (' ' :: l.body)

/-- No separator of lines stands in a line. -/
theorem isStop_chars (l : Line) : ∀ c ∈ l.chars, isStop c = false := by
  have hhead : isStop l.head = false := by
    rw [isStop, Bool.or_eq_false_iff, beq_eq_false_iff_ne, beq_eq_false_iff_ne]
    exact ⟨ne_of_isUppercase l.isUppercase_head rfl, ne_of_isUppercase l.isUppercase_head rfl⟩
  have harrow : ∀ c ∈ l.arrow.chars, isStop c = false := by
    cases l.arrow <;> simp [Arrow.chars, plainArrow, signArrow, isStop]
  have hblank : isStop ' ' = false := rfl
  simpa [chars, or_imp, forall_and, hhead, hblank] using ⟨harrow, l.isStop_body⟩

/-- Trimming a line changes its body at most. -/
theorem trim_chars (l : Line) : Text.trim l.chars = l.head :: ' ' :: (l.arrow.chars ++ l.rest) := by
  have hhead : Text.isBlank l.head = false := isBlank_of_isUppercase l.isUppercase_head
  rw [Text.trim, chars, List.dropWhile_cons_of_neg (by simp [hhead]), rest]
  cases l.arrow with
  | plain =>
    show Text.trimRight ([l.head, ' ', '-'] ++ '>' :: (' ' :: l.body)) = _
    exact Text.trimRight_append_cons rfl
  | sign =>
    show Text.trimRight ([l.head, ' '] ++ '→' :: (' ' :: l.body)) = _
    exact Text.trimRight_append_cons rfl

/-- What follows the arrow of a line has the arrow of two characters if the body has. -/
theorem plainArrow_infix_rest_iff : plainArrow <:+: l.rest ↔ plainArrow <:+: l.body := by
  have hne : plainArrow ≠ [] := List.cons_ne_nil _ _
  have hskip : plainArrow <:+: [' '] ++ l.body ↔ plainArrow <:+: l.body :=
    Text.infix_append_iff_of_skip hne (by simp [plainArrow])
  rw [rest, Text.infix_trimRight_iff hne (by simp [plainArrow, Text.isBlank])]
  exact hskip

/-- The blanks around a body say nothing. -/
theorem productions_eq (l : Line) :
    (Text.splitWhere (· == '|') l.rest).map (fun body => (⟨l.head, readBody body⟩ : Production)) =
      l.productions := by
  have hbar : ∀ c : Char, (c == '|') = true → (!Text.isBlank c && !(c == 'ε')) = true := by
    intro c hc
    rw [eq_of_beq hc]
    rfl
  have hbody : readBody l.rest = readBody l.body :=
    readBody_congr (Text.filter_trimRight (' ' :: l.body))
  have hpieces : (Text.splitWhere (· == '|') l.rest).map readBody =
      (Text.splitWhere (· == '|') l.body).map readBody := by
    unfold readBody at hbody ⊢
    rw [← Text.splitWhere_filter hbar, ← Text.splitWhere_filter hbar, hbody]
  have hmk := congrArg (List.map (Production.mk l.head)) hpieces
  rwa [List.map_map, List.map_map] at hmk

/-- **A line is read with its own head and body**, unless it hides an arrow. -/
theorem readRule_trim_chars (l : Line) :
    readRule (Text.trim l.chars) =
      if l.HidesArrow then .error (.unreadableRule (Text.trim l.chars)) else .ok l.productions := by
  have hhead := l.isUppercase_head
  rw [trim_chars]
  cases harrow : l.arrow with
  | plain =>
    have hshown : ¬ l.HidesArrow := fun h => nomatch harrow.symm.trans h.1
    have hdash : '-' ≠ l.head := (ne_of_isUppercase hhead rfl).symm
    have hcut : cutArrow? (l.head :: ' ' :: (Arrow.plain.chars ++ l.rest)) =
        some ([l.head, ' '], l.rest) := by
      simp [cutArrow?, Arrow.chars, plainArrow, Text.cut?, Text.after?, hdash]
    rw [if_neg hshown, readRule_of_cut hhead hcut, productions_eq]
  | sign =>
    by_cases hinfix : plainArrow <:+: l.body
    · rw [if_pos ⟨harrow, hinfix⟩]
      exact readRule_sign_of_arrow hhead (plainArrow_infix_rest_iff.2 hinfix)
    · have hcut := cutArrow?_sign hhead (mt plainArrow_infix_rest_iff.1 hinfix)
      rw [if_neg fun h => hinfix h.2, ← productions_eq]
      exact readRule_of_cut hhead hcut

end Line

/-! ### All lines -/

/-- Written lines are split into the lines. -/
theorem splitWhere_written (hls : ls ≠ []) :
    Text.splitWhere isStop (written ls) = ls.map Line.chars := by
  induction ls with
  | nil => exact absurd rfl hls
  | cons l ls ih =>
    cases ls with
    | nil => exact Text.splitWhere_eq_singleton l.isStop_chars
    | cons m ls =>
      rw [written, Text.splitWhere_append_cons l.isStop_chars l.isStop_stop,
        ih (List.cons_ne_nil m ls)]
      rfl

/-- **The rules of written lines** are the lines. -/
theorem rulesOf_written (ls : List Line) :
    rulesOf (written ls) = ls.map fun l => Text.trim l.chars := by
  cases ls with
  | nil => rfl
  | cons l ls =>
    have hrules : rulesOf (written (l :: ls)) =
        ((Text.splitWhere isStop (written (l :: ls))).map Text.trim).filter fun r => !r.isEmpty :=
      rfl
    rw [hrules, splitWhere_written (List.cons_ne_nil l ls), List.map_map]
    refine List.filter_eq_self.2 fun rule hrule => ?_
    obtain ⟨m, -, rfl⟩ := List.mem_map.1 hrule
    rw [Function.comp_apply, m.trim_chars]
    rfl

/-- The first line that hides an arrow is refused. -/
theorem readRules_lines (ls : List Line) :
    readRules (ls.map fun l => Text.trim l.chars) =
      match ls.find? fun l => decide l.HidesArrow with
      | some l => .error (.unreadableRule (Text.trim l.chars))
      | none => .ok (ls.flatMap Line.productions) := by
  induction ls with
  | nil => rfl
  | cons l ls ih =>
    rw [List.map_cons, readRules, l.readRule_trim_chars, ih, List.find?_cons]
    by_cases h : l.HidesArrow
    · simp [h]
    · cases ls.find? fun l => decide l.HidesArrow <;> simp [h]

/-- **What is read of written lines**: the grammar of their productions, unless some line hides an
arrow. -/
theorem read_written (ls : List Line) :
    read (String.ofList (written ls)) =
      match ls.find? fun l => decide l.HidesArrow with
      | some l => .error (.unreadableRule (Text.trim l.chars))
      | none => ofProductions (ls.flatMap Line.productions) := by
  rw [read, String.toList_ofList, readChars, rulesOf_written, readRules_lines]
  cases ls.find? fun l => decide l.HidesArrow <;> rfl

/-! ### Two ways to write the same -/

/-- Lines with the same rules have the same productions. -/
theorem flatMap_productions_congr (h : HaveSameRules ls ms) :
    ls.flatMap Line.productions = ms.flatMap Line.productions := by
  have hrule : Line.productions = (fun r : Char × List Char =>
      (Text.splitWhere (· == '|') r.2).map fun body => (⟨r.1, readBody body⟩ : Production)) ∘
        Line.rule := rfl
  rw [List.flatMap_def, List.flatMap_def, hrule, ← List.map_map, ← List.map_map]
  exact congrArg _ (congrArg _ h)

/-- No defect of a grammar is a rule that cannot be read. -/
theorem kind_of_defect? (hd : g.defect? = some d) : d.kind ≠ .unreadableRule := by
  unfold defect? at hd
  split at hd
  · obtain rfl := Option.some.inj hd
    exact nofun
  split at hd
  · obtain rfl := Option.some.inj hd
    exact nofun
  rcases Option.or_eq_some_iff.1 hd with hd | ⟨-, hd⟩
  · obtain ⟨c, -, rfl⟩ := Option.map_eq_some_iff.1 hd
    exact nofun
  split at hd
  · obtain rfl := Option.some.inj hd
    exact nofun
  obtain ⟨p, -, hd⟩ := List.exists_of_findSome?_eq_some hd
  unfold productionDefect? at hd
  split at hd
  · obtain rfl := Option.some.inj hd
    exact nofun
  · obtain ⟨c, -, rfl⟩ := Option.map_eq_some_iff.1 hd
    exact nofun

/-- Productions are never refused as a rule that cannot be read. -/
theorem kind_of_ofProductions (hd : ofProductions ps = .error d) : d.kind ≠ .unreadableRule := by
  cases ps with
  | nil =>
    cases hd
    exact nofun
  | cons p ps =>
    dsimp only [ofProductions, ofParts] at hd
    split at hd
    · cases hd
    · next hsome =>
      cases hd
      exact kind_of_defect? hsome

/-- What is read agrees with itself. -/
theorem agree_self (x : Except Defect Grammar) : Agree x x := by
  cases x <;> rfl

/-- Agreement goes both ways. -/
theorem Agree.symm : {x y : Except Defect Grammar} → Agree x y → Agree y x
  | .ok _, .ok _, h => Eq.symm h
  | .error _, .error _, h => Eq.symm h
  | .ok _, .error _, h => h
  | .error _, .ok _, h => h

/-- A refused rule is no agreement with productions. -/
theorem not_agree_ofProductions {rule : List Char} :
    ¬ Agree (.error (.unreadableRule rule)) (ofProductions ps) := by
  cases hps : ofProductions ps with
  | ok g => exact id
  | error d => exact fun h => kind_of_ofProductions hps h.symm

/-- A line that hides an arrow is found if there is one. -/
theorem isSome_find?_hidesArrow :
    (ls.find? fun l => decide l.HidesArrow).isSome = true ↔ ∃ l ∈ ls, l.HidesArrow := by
  simp [List.find?_isSome]

/-- **The arrows may be exchanged** as far as this hides no arrow that stands in a body: two ways to
write the same rules agree exactly if both of them hide an arrow, or none. -/
theorem read_written_agree_iff (h : HaveSameRules ls ms) :
    Agree (read (String.ofList (written ls))) (read (String.ofList (written ms))) ↔
      ((∃ l ∈ ls, l.HidesArrow) ↔ ∃ l ∈ ms, l.HidesArrow) := by
  rw [read_written, read_written, flatMap_productions_congr h, ← isSome_find?_hidesArrow,
    ← isSome_find?_hidesArrow]
  cases ls.find? fun l => decide l.HidesArrow with
  | none =>
    cases ms.find? fun l => decide l.HidesArrow with
    | none => exact iff_of_true (agree_self _) Iff.rfl
    | some m => exact iff_of_false (fun hagree => not_agree_ofProductions hagree.symm) (by simp)
  | some l =>
    cases ms.find? fun l => decide l.HidesArrow with
    | none => exact iff_of_false not_agree_ofProductions (by simp)
    | some m => exact iff_of_true rfl (by simp)

/-- A rule with the arrow of two characters in its body. -/
def arrowLine (arrow : Arrow) : Line where
  head := 'S'
  arrow := arrow
  body := ['a', '-', '>', 'b']
  stop := ';'
  isUppercase_head := rfl
  isStop_body := by simp [isStop]
  isStop_stop := rfl

/-- A rule with the parts of that arrow in its body, the other arrow, and blanks behind it. -/
def brokenLine (arrow : Arrow) : Line where
  head := 'A'
  arrow := arrow
  body := ['-', ' ', '>', '|', '→', ' ', '\t']
  stop := '\n'
  isUppercase_head := rfl
  isStop_body := by simp [isStop]
  isStop_stop := rfl

/-- The hypothesis of `read_written_agree_iff` is satisfiable: two rules may be written with either
arrow as long as the one of two characters stands before the body that has it. -/
theorem read_written_agree_of_arrows :
    HaveSameRules [arrowLine .plain, brokenLine .sign] [arrowLine .plain, brokenLine .plain] ∧
      Agree (read "S -> a->b;A → - >|→ \t") (read "S -> a->b;A -> - >|→ \t") ∧
      ∃ g, read "S -> a->b;A → - >|→ \t" = .ok g :=
  have hsame : HaveSameRules [arrowLine .plain, brokenLine .sign]
      [arrowLine .plain, brokenLine .plain] := rfl
  ⟨hsame, (read_written_agree_iff hsame).2 (by decide), _, rfl⟩

/-- The arrows may not be exchanged everywhere: with the arrow of two characters in its body, a rule
is read behind this arrow, and refused behind the other one. -/
theorem not_forall_agree_written :
    ¬ ∀ ls ms : List Line, ls ≠ [] → HaveSameRules ls ms →
      Agree (read (String.ofList (written ls))) (read (String.ofList (written ms))) := by
  intro h
  have hagree : Agree (read "S -> a->b") (read "S → a->b") :=
    h [arrowLine .plain] [arrowLine .sign] (List.cons_ne_nil _ _) rfl
  have hread : ∃ g, read "S -> a->b" = .ok g := ⟨_, rfl⟩
  have hrefused : read "S → a->b" = .error (.unreadableRule "S → a->b".toList) := rfl
  obtain ⟨g, hg⟩ := hread
  rw [hg, hrefused] at hagree
  exact hagree

end Grammar
end LanguageForms
