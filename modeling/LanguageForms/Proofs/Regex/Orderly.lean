/-
# Reading never stops in an unexpected place

Reading layer by layer leaves an end of the pattern, and reads alternatives at the beginning
of the pattern or behind a `(` only.  This is another contract of the routines
(`Routine.Leaves`, `Routine.Stands`), and every move keeps it because it goes ahead
(`Move.Forward`).  A measure becomes smaller on the way, so every pattern can be read layer
by layer.

A fault that is given is reported by one of the routines that were entered, and where these
begin is known (`Routine.Begins`).  This leaves few places for the faults (`Move.Blames`).

`IsOrderly` says what does not happen while a pattern is read, and `reading_isOrderly` that
this is so for all patterns.
-/
import LanguageForms.Proofs.Regex.Descent

namespace LanguageForms
namespace Regex
namespace Descent

variable {length n : Nat} {r s : Routine} {us vs ws : Rest} {e : Regex} {f : Fault}
  {o : Outcome} {c : Char}

/-! ### What is left to read -/

/-- How many characters a routine takes at least. -/
@[simp] def Routine.least : Routine → Nat
  | phrase .choice => 0
  | phrase _ => 1
  | _ => 0

/-- How far a routine is from a routine that takes a character. -/
@[simp] def Routine.rank : Routine → Nat
  | phrase .choice => 3
  | phrase .sequence => 2
  | phrase .repetition => 1
  | factors _ => 2
  | _ => 0

/-- No routine is further than three from one that takes a character. -/
theorem Routine.rank_le (r : Routine) : r.rank ≤ 3 := by
  cases r with
  | phrase layer => cases layer <;> simp
  | _ => simp

/-- A measure that becomes smaller with every routine that is entered. -/
@[simp] def Routine.weight (r : Routine) (us : Rest) : Nat := 4 * us.length + r.rank

/-- From one routine at a place it is ahead to another one at a place: nothing is read again, and
alternatives are read behind a `(` only. -/
structure Ahead (r : Routine) (us : Rest) (s : Routine) (vs : Rest) : Prop where
  suffix : vs <:+ us
  weight : s.weight vs < r.weight us
  least : vs.length + r.least ≤ us.length + s.least
  opened : s = .phrase .choice → ∃ n, us = (n, '(') :: vs

/-- A move leaves an end of what was left, and only goes ahead. -/
def Move.Forward (r : Routine) (us : Rest) : Move → Prop
  | returns _ vs => vs <:+ us ∧ vs.length + r.least ≤ us.length
  | fails _ => True
  | goesOn s vs => Ahead r us s vs
  | calls s vs next => Ahead r us s vs ∧ ∀ e ws, ws.length + s.least ≤ vs.length →
      (next e).weight ws < r.weight us ∧ next e ≠ .phrase .choice

/-- What is called at the same place is of a stronger layer. -/
theorem Ahead.same (us : Rest) (hrank : s.rank < r.rank) (hleast : r.least ≤ s.least)
    (hs : s ≠ .phrase .choice) : Ahead r us s us :=
  ⟨List.suffix_refl us, by simp only [Routine.weight]; omega, by omega, fun heq => absurd heq hs⟩

/-- A character is taken. -/
theorem Ahead.behind (us : Rest) (hleast : r.least ≤ s.least + 1)
    (hs : s = .phrase .choice → c = '(') : Ahead r ((n, c) :: us) s us := by
  have hrank := s.rank_le
  refine ⟨List.suffix_cons _ us, ?_, ?_, fun heq => ⟨n, by rw [hs heq]⟩⟩
  all_goals simp only [Routine.weight, List.length_cons]
  all_goals omega

/-- A call goes ahead if a character is taken before it or in it. -/
theorem Ahead.calls {next : Regex → Routine} (h : Ahead r us s vs)
    (hless : vs.length < us.length + s.least) (hnext : ∀ e, next e ≠ .phrase .choice) :
    (Move.calls s vs next).Forward r us := by
  refine ⟨h, fun e ws hws => ⟨?_, hnext e⟩⟩
  have hrank := (next e).rank_le
  simp only [Routine.weight]
  omega

/-- **Every move goes ahead.** -/
theorem forward_move (length : Nat) (r : Routine) (us : Rest) :
    (move length r us).Forward r us := by
  cases r with
  | phrase layer =>
    cases layer with
    | operand =>
      show (operand length us).Forward _ _
      fun_cases operand length us with
      | case1 => trivial
      | case2 n us => exact (Ahead.behind us (by simp) fun _ => rfl).calls (by simp) (by simp)
      | case3 n us => exact ⟨List.suffix_cons _ us, by simp⟩
      | case4 => trivial
      | case5 n c us => exact ⟨List.suffix_cons _ us, by simp⟩
    | repetition => exact (Ahead.same us (by simp) (by simp) (by simp)).calls (by simp) (by simp)
    | sequence => exact (Ahead.same us (by simp) (by simp) (by simp)).calls (by simp) (by simp)
    | choice =>
      show (choice us).Forward _ _
      fun_cases choice us with
      | case1 => exact ⟨List.suffix_refl _, by simp⟩
      | case2 n us => exact ⟨List.suffix_refl _, by simp⟩
      | case3 n c us =>
        exact (Ahead.same _ (by simp) (by simp) (by simp)).calls (by simp) (by simp)
      | case4 => trivial
  | alternatives left =>
    show (alternatives length left us).Forward _ _
    fun_cases alternatives length left us with
    | case1 => exact ⟨List.suffix_refl _, by simp⟩
    | case2 n c us => exact (Ahead.behind us (by simp) (by simp)).calls (by simp +arith) (by simp)
    | case3 => trivial
    | case4 => exact ⟨List.suffix_refl _, by simp⟩
  | factors left =>
    show (factors left us).Forward _ _
    fun_cases factors left us with
    | case1 => exact (Ahead.same us (by simp) (by simp) (by simp)).calls (by simp) (by simp)
    | case2 => exact ⟨List.suffix_refl _, by simp⟩
  | signs x =>
    show (signs x us).Forward _ _
    fun_cases signs x us with
    | case1 => exact ⟨List.suffix_refl _, by simp⟩
    | case2 n us => exact .behind us (by simp) (by simp)
    | case3 n us => exact .behind us (by simp) (by simp)
    | case4 n c us => exact .behind us (by simp) (by simp)
    | case5 => exact ⟨List.suffix_refl _, by simp⟩
  | closing opening inner =>
    show (closing opening inner us).Forward _ _
    fun_cases closing opening inner us with
    | case1 => trivial
    | case2 n us => exact ⟨List.suffix_cons _ us, by simp⟩
    | case3 => trivial

/-- A routine that returns leaves an end of what it was given. -/
def Routine.Leaves (r : Routine) (us : Rest) : Outcome → Prop
  | .ok (_, vs) => vs <:+ us ∧ vs.length + r.least ≤ us.length
  | .error _ => True

/-- What leaves an end of what is ahead leaves an end of what was there. -/
theorem Ahead.leaves (h : Ahead r us s vs) (ho : s.Leaves vs o) : r.Leaves us o := by
  cases o with
  | error f => trivial
  | ok a =>
    have hleast := h.least
    exact ⟨ho.1.trans h.suffix, by have := ho.2; omega⟩

/-- Where a routine may stand in a pattern: alternatives are read at the beginning and behind every
`(`. -/
def Routine.Stands (all : Rest) (r : Routine) (us : Rest) : Prop :=
  us <:+ all ∧ (r = .phrase .choice → us = all ∨ ∃ n, (n, '(') :: us <:+ all)

/-- What is ahead of a routine that stands where it may stands where it may. -/
theorem Ahead.stands {all : Rest} (h : Ahead r us s vs) (hr : r.Stands all us) :
    s.Stands all vs := by
  refine ⟨h.suffix.trans hr.1, fun hs => ?_⟩
  obtain ⟨n, rfl⟩ := h.opened hs
  exact .inr ⟨n, hr.1⟩

/-- **Every routine leaves an end** of what it was given, and stands where it may. -/
theorem isContract_leaves (length : Nat) (all : Rest) :
    IsContract length (Routine.Stands all) Routine.Leaves := by
  intro r us hr
  have hforward := forward_move length r us
  generalize move length r us = m at hforward
  cases m with
  | returns e vs => exact hforward
  | fails f => trivial
  | goesOn s vs => exact ⟨hforward.stands hr, fun o ho => hforward.leaves ho⟩
  | calls s vs next =>
    obtain ⟨hahead, hnext⟩ := hforward
    refine ⟨hahead.stands hr, fun _ _ => trivial, fun e ws hws => ⟨⟨?_, ?_⟩, fun o ho => ?_⟩⟩
    · exact hws.1.trans (hahead.stands hr).1
    · exact fun heq => absurd heq (hnext e ws hws.2).2
    · cases o with
      | error f => trivial
      | ok a =>
        have hleast := hahead.least
        have hcallee := hws.2
        have hrest := ho.2
        exact ⟨ho.1.trans (hws.1.trans hahead.suffix), by omega⟩

/-- **Reading ends**: every routine gives something at every place. -/
theorem exists_gives (length : Nat) (r : Routine) (us : Rest) : ∃ o, Gives length r us o := by
  have hforward := forward_move length r us
  cases hm : move length r us with
  | returns e vs => exact ⟨_, .returns hm⟩
  | fails f => exact ⟨_, .fails hm⟩
  | goesOn s vs =>
    rw [hm] at hforward
    have hless := hforward.weight
    obtain ⟨o, ho⟩ := exists_gives length s vs
    exact ⟨o, .goesOn hm ho⟩
  | calls s vs next =>
    rw [hm] at hforward
    obtain ⟨hahead, hnext⟩ := hforward
    have hless := hahead.weight
    obtain ⟨o, ho⟩ := exists_gives length s vs
    cases o with
    | error f => exact ⟨_, .callFails hm ho⟩
    | ok a =>
      obtain ⟨e, ws⟩ := a
      have hleaves : s.Leaves vs (.ok (e, ws)) := (isContract_leaves length vs).post_of_gives ho
        ⟨List.suffix_refl vs, fun _ => .inl rfl⟩
      have hless' := (hnext e ws hleaves.2).1
      obtain ⟨o, ho'⟩ := exists_gives length (next e) ws
      exact ⟨o, .calls hm ho ho'⟩
termination_by r.weight us

/-- A routine gives one thing only at a place. -/
theorem Gives.unique {o' : Outcome} (h : Gives length r us o) (h' : Gives length r us o') :
    o = o' := by
  induction h generalizing o' with
  | returns hm =>
    cases h' with
    | returns hm' =>
      obtain ⟨rfl, rfl⟩ := Move.returns.inj (hm.symm.trans hm')
      rfl
    | _ hm' => cases hm.symm.trans hm'
  | fails hm =>
    cases h' with
    | fails hm' =>
      obtain rfl := Move.fails.inj (hm.symm.trans hm')
      rfl
    | _ hm' => cases hm.symm.trans hm'
  | goesOn hm _ ih =>
    cases h' with
    | goesOn hm' hs =>
      obtain ⟨rfl, rfl⟩ := Move.goesOn.inj (hm.symm.trans hm')
      exact ih hs
    | _ hm' => cases hm.symm.trans hm'
  | calls hm _ _ ihc ihn =>
    cases h' with
    | calls hm' hc hn =>
      obtain ⟨rfl, rfl, rfl⟩ := Move.calls.inj (hm.symm.trans hm')
      obtain ⟨rfl, rfl⟩ := Prod.mk.inj (Except.ok.inj (ihc hc))
      exact ihn hn
    | callFails hm' hc =>
      obtain ⟨rfl, rfl, -⟩ := Move.calls.inj (hm.symm.trans hm')
      cases ihc hc
    | _ hm' => cases hm.symm.trans hm'
  | callFails hm _ ih =>
    cases h' with
    | calls hm' hc =>
      obtain ⟨rfl, rfl, -⟩ := Move.calls.inj (hm.symm.trans hm')
      cases ih hc
    | callFails hm' hc =>
      obtain ⟨rfl, rfl, -⟩ := Move.calls.inj (hm.symm.trans hm')
      exact ih hc
    | _ hm' => cases hm.symm.trans hm'

/-! ### Faults -/

/-- A fault that is given is reported by a routine that was entered. -/
theorem exists_fails_of_gives (h : Gives length r us o) (ho : o = .error f) :
    ∃ s vs, Enters length r us s vs ∧ move length s vs = .fails f := by
  induction h with
  | returns => cases ho
  | @fails r us f' hm =>
    obtain rfl := Except.error.inj ho
    exact ⟨r, us, .here r us, hm⟩
  | goesOn hm _ ih =>
    obtain ⟨t, xs, henters, hfails⟩ := ih ho
    exact ⟨t, xs, .goesOn hm henters, hfails⟩
  | calls hm hgives _ _ ih =>
    obtain ⟨t, xs, henters, hfails⟩ := ih ho
    exact ⟨t, xs, .behind hm hgives henters, hfails⟩
  | callFails hm _ ih =>
    obtain ⟨t, xs, henters, hfails⟩ := ih ho
    exact ⟨t, xs, .callee hm henters, hfails⟩

/-- What a fault is about: a `(`, a `|`, or the character with which alternatives begin. -/
def Move.Blames (r : Routine) (us : Rest) : Move → Prop
  | fails f => f.issue = .unclosed ∨ f.issue = .missingOperand '|' ∨
      (r = .phrase .choice ∧ ∃ n c vs, us = (n, c) :: vs ∧ f = ⟨n, .missingOperand c⟩)
  | _ => True

/-- **A routine that begins where it may** reports few faults. -/
theorem blames_move (h : r.Begins us) : (move length r us).Blames r us := by
  cases r with
  | phrase layer =>
    cases layer with
    | operand =>
      show (operand length us).Blames _ _
      fun_cases operand length us with
      | case4 n c us hopening _ hoperator =>
        simp [Routine.Begins, atOperand, startsOperand, hopening, hoperator] at h
      | case1 => exact .inl rfl
      | _ => trivial
    | repetition => trivial
    | sequence => trivial
    | choice =>
      show (choice us).Blames _ _
      fun_cases choice us with
      | case4 n c us => exact .inr (.inr ⟨rfl, n, c, us, rfl, rfl⟩)
      | _ => trivial
  | alternatives left =>
    obtain ⟨hsigns, hnone⟩ := h
    show (alternatives length left us).Blames _ _
    fun_cases alternatives length left us with
    | case3 n c us hc hoperand =>
      obtain ⟨-, -, hplus⟩ := pastSigns_cons_iff.1 hsigns
      have hbar : c = '|' := hc.resolve_right fun hc => hoperand (hplus hc)
      exact .inr (.inl (congrArg Issue.missingOperand hbar))
    | _ => trivial
  | factors left =>
    show (factors left us).Blames _ _
    fun_cases factors left us <;> trivial
  | signs x =>
    show (signs x us).Blames _ _
    fun_cases signs x us <;> trivial
  | closing opening inner =>
    show (closing opening inner us).Blames _ _
    fun_cases closing opening inner us with
    | case2 => trivial
    | _ => exact .inl rfl

/-! ### Places in a pattern -/

/-- Where a character that is no blank stands in a pattern, and what is before it. -/
theorem exists_of_visible_eq {cs : List Char} {k : Nat}
    (h : Token.visible k cs = us ++ (n, c) :: vs) :
    ∃ before after, cs = before ++ c :: after ∧ n = k + before.length ∧
      Token.visible k before = us := by
  induction cs generalizing k us with
  | nil => simp [Token.visible] at h
  | cons d cs ih =>
    rw [Token.visible] at h
    split at h
    · next hd =>
      obtain ⟨before, after, rfl, rfl, rfl⟩ := ih h
      refine ⟨d :: before, after, rfl, by simp; omega, ?_⟩
      rw [Token.visible, if_pos hd]
    · next hd =>
      cases us with
      | nil =>
        obtain ⟨⟨rfl, rfl⟩, -⟩ : (k = n ∧ d = c) ∧ _ := by simpa using h
        exact ⟨[], cs, rfl, rfl, rfl⟩
      | cons u us =>
        obtain ⟨rfl, htail⟩ := List.cons.inj h
        obtain ⟨before, after, rfl, rfl, rfl⟩ := ih htail
        refine ⟨d :: before, after, rfl, by simp; omega, ?_⟩
        rw [Token.visible, if_neg hd]

/-- Blanks aside, the position is that of the first character of a pattern or of a group. -/
def IsFirst (cs : List Char) (position : Nat) : Prop :=
  Text.lastVisible? (cs.take position) = none ∨ Text.lastVisible? (cs.take position) = some '('

/-- Alternatives are read from the first character of a pattern or of a group on. -/
theorem isFirst_of_stands {cs : List Char}
    (h : (Routine.phrase .choice).Stands (Token.visible 0 cs) ((n, c) :: us)) :
    cs[n]? = some c ∧ IsFirst cs n := by
  obtain ⟨⟨xs, hxs⟩, hbegins⟩ := h
  obtain ⟨before, after, rfl, rfl, hvisible⟩ := exists_of_visible_eq hxs.symm
  rw [Nat.zero_add] at *
  have hlast : Text.lastVisible? before = (xs.map Prod.snd).getLast? := by
    rw [Text.lastVisible?, ← Token.map_snd_visible 0, hvisible]
  refine ⟨by simp, ?_⟩
  rw [IsFirst, List.take_left, hlast]
  rcases hbegins rfl with heq | ⟨m, ys, hys⟩
  · have hnil : xs = [] := by
      rw [← hxs] at heq
      simpa using heq
    exact .inl (by rw [hnil]; rfl)
  · have hends : xs ++ (before.length, c) :: us =
        (ys ++ [(m, '(')]) ++ (before.length, c) :: us := by
      rw [hxs, ← hys, List.append_assoc]
      rfl
    have hopening : xs = ys ++ [(m, '(')] := List.append_cancel_right hends
    exact .inr (by simp [hopening])

/-! ### Whole patterns -/

/-- A pattern is parsed as what comes of its alternatives says. -/
theorem parse_eq_conclude {p : String} (h : Begun p.toList o) :
    parse p = (conclude o).mapError (SyntaxError.ofFault p.toList) :=
  congrArg (Except.mapError _) (read_eq_conclude h)

/-- Only what leaves nothing is accepted. -/
theorem eq_ok_of_parse {p : String} (h : Begun p.toList o) (he : parse p = .ok e) :
    o = .ok (e, []) := by
  rw [parse_eq_conclude h] at he
  match o with
  | .error f => cases he
  | .ok (_, []) =>
    obtain rfl := Except.ok.inj he
    rfl
  | .ok (_, _ :: _) => cases he

/-- Only a `)` that is left is reported when everything has been read. -/
theorem exists_fault_of_parse {p : String} {e : SyntaxError} (h : Begun p.toList o)
    (he : parse p = .error e) (hissue : e.issue ≠ .unbalanced) :
    ∃ f, o = .error f ∧ e = .ofFault p.toList f := by
  rw [parse_eq_conclude h] at he
  match o with
  | .error f => exact ⟨f, rfl, (Except.error.inj he).symm⟩
  | .ok (_, []) => cases he
  | .ok (_, (n, c) :: _) =>
    obtain rfl := Except.error.inj he
    exact absurd rfl hissue

/-- Where a routine is entered while a pattern is read, it begins where it may. -/
theorem begins_of_visits {cs : List Char} (h : Visits cs r us) : r.Begins us :=
  (isContract_correct cs.length).pre_of_enters h trivial

/-- Where a routine is entered while a pattern is read, it stands where it may. -/
theorem stands_of_visits {cs : List Char} (h : Visits cs r us) :
    r.Stands (Token.visible 0 cs) us :=
  (isContract_leaves cs.length _).pre_of_enters h ⟨List.suffix_refl _, fun _ => .inl rfl⟩

/-- **A missing operand of a `+`** is reported at the first character of a pattern or of a
group. -/
theorem isFirst_of_begun {cs : List Char} (h : Begun cs (.error f))
    (hissue : f.issue = .missingOperand '+') :
    cs[f.position]? = some '+' ∧ IsFirst cs f.position := by
  obtain ⟨s, vs, henters, hfails⟩ := exists_fails_of_gives h rfl
  have hblames : (move cs.length s vs).Blames s vs := blames_move (begins_of_visits henters)
  rw [hfails] at hblames
  rcases hblames with hunclosed | hbar | ⟨rfl, n, c, ws, rfl, rfl⟩
  · rw [hunclosed] at hissue
    cases hissue
  · rw [hbar] at hissue
    cases hissue
  · obtain rfl : c = '+' := Issue.missingOperand.inj hissue
    exact isFirst_of_stands (stands_of_visits henters)

/-- Nothing unexpected happens while a pattern is read layer by layer with a given outcome. -/
structure IsOrderly (pattern : String) (o : Outcome) : Prop where
  /-- The outcome says what is read of the pattern. -/
  parse_eq : parse pattern = (conclude o).mapError (SyntaxError.ofFault pattern.toList)
  /-- The alternatives of the pattern stop at its end or at a `)`. -/
  stops : ∀ e vs, o = .ok (e, vs) → atEnd vs = true
  /-- Nothing is left of a pattern that is accepted. -/
  accepts : ∀ e, parse pattern = .ok e → o = .ok (e, [])
  /-- Operands are read where one begins. -/
  operand : ∀ us, Visits pattern.toList (.phrase .operand) us → atOperand us = true
  /-- The alternatives of every group stop at the end of the pattern or at a `)`. -/
  group : ∀ us, Visits pattern.toList (.phrase .choice) us → ∀ e vs,
    Gives pattern.toList.length (.phrase .choice) us (.ok (e, vs)) → atEnd vs = true
  /-- Behind a `+` between alternatives an operand begins. -/
  plus : ∀ left n us, Visits pattern.toList (.alternatives left) ((n, '+') :: us) →
    atOperand us = true
  /-- If the operand of a `+` is missing, the `+` is the first character of the pattern or of a
  group. -/
  missing : ∀ e, parse pattern = .error e → e.issue = .missingOperand '+' →
    pattern.toList[e.position]? = some '+' ∧ IsFirst pattern.toList e.position

/-- **Reading never stops in an unexpected place**: a pattern can be read layer by layer in just
one way, and nothing unexpected happens then. -/
theorem reading_isOrderly (p : String) :
    (∃! o, Begun p.toList o) ∧ ∀ o, Begun p.toList o → IsOrderly p o := by
  obtain ⟨o, ho⟩ := exists_gives p.toList.length (.phrase .choice) (Token.visible 0 p.toList)
  refine ⟨⟨o, ho, fun o' ho' => ho'.unique ho⟩, fun o ho => ?_⟩
  have hcorrect := isContract_correct p.toList.length
  refine ⟨parse_eq_conclude ho, ?stops, fun e => eq_ok_of_parse ho, fun us => begins_of_visits,
    ?group, ?plus, ?missing⟩
  case stops =>
    rintro e vs rfl
    exact (hcorrect.post_of_gives ho trivial).1
  case group => exact fun us _ e vs hgives => (hcorrect.post_of_gives hgives trivial).1
  case plus =>
    intro left n us hvisits
    obtain ⟨hsigns, -⟩ := begins_of_visits hvisits
    exact (pastSigns_cons_iff.1 hsigns).2.2 rfl
  case missing =>
    intro e he hissue
    obtain ⟨f, rfl, rfl⟩ := exists_fault_of_parse ho he (by simp [hissue])
    exact isFirst_of_begun ho hissue

end Descent
end Regex
end LanguageForms
