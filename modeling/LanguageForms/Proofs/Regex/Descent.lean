/-
# Reading layer by layer

The routines of `Regex/Descent.lean` call each other without end in sight, so what one of
them does cannot be said without the others.  A contract says where each routine may begin
and what may come of it.  It is kept by every run if it is kept by every single move, where
what is called may be assumed to keep it (`IsContract`).

The contract here says where routines begin and stop (`Routine.Begins`, `Routine.Stops`), and
that the reader of `Regex/Parser.lean` comes to the same expressions and faults
(`Routine.Agrees`).  What a `+` is depends on the character behind it: the routine for the
signs behind an operand leaves only a `+` that an operand follows, and the routine for
alternatives relies on that (`pastSigns`).
-/
import LanguageForms.Proofs.Regex.Faults
import LanguageForms.Regex.Descent

namespace LanguageForms
namespace Regex
namespace Descent

variable {length n : Nat} {r s : Routine} {us vs ws : Rest} {e : Regex} {f : Fault}
  {o : Outcome} {c : Char}

/-! ### Contracts -/

/-- What a move has to do so that a routine keeps a contract.  What it goes on with and what it
calls has to be begun as the contract asks, and if these keep the contract, so does the routine. -/
def Move.Keeps (pre : Routine → Rest → Prop) (post : Routine → Rest → Outcome → Prop)
    (r : Routine) (us : Rest) : Move → Prop
  | returns e vs => post r us (.ok (e, vs))
  | fails f => post r us (.error f)
  | goesOn s vs => pre s vs ∧ ∀ o, post s vs o → post r us o
  | calls s vs next => pre s vs ∧ (∀ f, post s vs (.error f) → post r us (.error f)) ∧
      ∀ e ws, post s vs (.ok (e, ws)) →
        pre (next e) ws ∧ ∀ o, post (next e) ws o → post r us o

/-- Every move keeps the contract. -/
def IsContract (length : Nat) (pre : Routine → Rest → Prop)
    (post : Routine → Rest → Outcome → Prop) : Prop :=
  ∀ r us, pre r us → (move length r us).Keeps pre post r us

section

variable {pre : Routine → Rest → Prop} {post : Routine → Rest → Outcome → Prop}

/-- What a routine does keeps the contract. -/
theorem IsContract.keeps {m : Move} (hc : IsContract length pre post) (hpre : pre r us)
    (hm : move length r us = m) : m.Keeps pre post r us := by
  rw [← hm]
  exact hc r us hpre

/-- **What is given keeps the contract** if every move does. -/
theorem IsContract.post_of_gives (hc : IsContract length pre post) (h : Gives length r us o)
    (hpre : pre r us) : post r us o := by
  induction h with
  | returns hm => exact hc.keeps hpre hm
  | fails hm => exact hc.keeps hpre hm
  | goesOn hm _ ih =>
    obtain ⟨hbegun, hdone⟩ := hc.keeps hpre hm
    exact hdone _ (ih hbegun)
  | calls hm _ _ ihc ihn =>
    obtain ⟨hbegun, -, hreturned⟩ := hc.keeps hpre hm
    obtain ⟨hnext, hdone⟩ := hreturned _ _ (ihc hbegun)
    exact hdone _ (ihn hnext)
  | callFails hm _ ih =>
    obtain ⟨hbegun, hfailed, -⟩ := hc.keeps hpre hm
    exact hfailed _ (ih hbegun)

/-- **What is entered is begun as the contract asks** if every move keeps it. -/
theorem IsContract.pre_of_enters (hc : IsContract length pre post)
    (h : Enters length r us s vs) (hpre : pre r us) : pre s vs := by
  induction h with
  | here => exact hpre
  | goesOn hm _ ih => exact ih (hc.keeps hpre hm).1
  | callee hm _ ih => exact ih (hc.keeps hpre hm).1
  | behind hm hgives _ ih =>
    obtain ⟨hbegun, -, hreturned⟩ := hc.keeps hpre hm
    exact ih (hreturned _ _ (hc.post_of_gives hgives hbegun)).1

end

/-! ### Where routines begin and stop -/

/-- No sign stands at the place that belongs to the operand before it. -/
def pastSigns : Rest → Bool
  | [] => true
  | (_, c) :: us => c != '*' && c != '?' && (c != '+' || atOperand us)

/-- What stands past the signs is no `*`, no `?`, and no `+` without an operand behind it. -/
theorem pastSigns_cons_iff : pastSigns ((n, c) :: us) = true ↔
    c ≠ '*' ∧ c ≠ '?' ∧ (c = '+' → atOperand us = true) := by
  simp [pastSigns, and_assoc, imp_iff_not_or]

/-- Where a routine may begin. -/
def Routine.Begins : Routine → Rest → Prop
  | phrase .choice, _ => True
  | phrase _, us => atOperand us = true
  | signs _, _ => True
  | factors _, us => pastSigns us = true
  | alternatives _, us => pastSigns us = true ∧ atOperand us = false
  | closing _ _, us => atEnd us = true

/-- Where a routine may stop. -/
def Routine.Stops : Routine → Rest → Prop
  | phrase .operand, _ => True
  | closing _ _, _ => True
  | phrase .repetition, us => pastSigns us = true
  | signs _, us => pastSigns us = true
  | phrase .sequence, us => pastSigns us = true ∧ atOperand us = false
  | factors _, us => pastSigns us = true ∧ atOperand us = false
  | phrase .choice, us => atEnd us = true
  | alternatives _, us => atEnd us = true

/-- Where no operand begins, and no sign that belongs to the operand before, there is an end or a
sign that asks for another alternative. -/
theorem atEnd_of_pastSigns (hsigns : pastSigns ((n, c) :: us) = true)
    (hoperand : atOperand ((n, c) :: us) = false) (hc : ¬ (c = '|' ∨ c = '+')) :
    atEnd ((n, c) :: us) = true := by
  obtain ⟨hstar, hoptional, -⟩ := pastSigns_cons_iff.1 hsigns
  obtain ⟨hbar, hplus⟩ := not_or.1 hc
  obtain ⟨hopening, hclosing⟩ : c ≠ '(' ∧ (c ≠ '(' → c = ')') := by
    simpa [atOperand, startsOperand, isOperator, hstar, hoptional, hbar, hplus] using hoperand
  exact beq_iff_eq.2 (hclosing hopening)

/-- A routine that returns stops where it may. -/
def Routine.StopsIn (r : Routine) : Outcome → Prop
  | .ok (_, vs) => r.Stops vs
  | .error _ => True

/-! ### What a reader makes of the rest -/

/-- What a reader gives that goes on with the rest of a pattern. -/
def complete (length : Nat) (t : Reader) (us : Rest) : Except Fault Regex :=
  match t.feedAll (Token.ofVisible us) with
  | .ok t => t.finish length
  | .error f => .error f

/-- The token of a character, given what is left behind it. -/
def tokenAt (c : Char) (us : Rest) : Token := Token.classify c (us.head?.map Prod.snd)

variable {t u : Reader} {g : Group} {outer : List (Nat × Group)} {Q Q' : Regex → Reader → Prop}

/-- A reader that takes a token goes on behind it. -/
theorem complete_of_feed (h : t.feed n (tokenAt c us) = .ok u) :
    complete length t ((n, c) :: us) = complete length u us := by
  have hfeed : t.feedAll (Token.ofVisible ((n, c) :: us)) = u.feedAll (Token.ofVisible us) := by
    show (match t.feed n (tokenAt c us) with
      | .ok u => u.feedAll (Token.ofVisible us)
      | .error f => .error f) = _
    rw [h]
  rw [complete, hfeed, complete]

/-- A reader that refuses a token gives the fault. -/
theorem complete_of_feed_error (h : t.feed n (tokenAt c us) = .error f) :
    complete length t ((n, c) :: us) = .error f := by
  have hfeed : t.feedAll (Token.ofVisible ((n, c) :: us)) = .error f := by
    show (match t.feed n (tokenAt c us) with
      | .ok u => u.feedAll (Token.ofVisible us)
      | .error f => .error f) = _
    rw [h]
  rw [complete, hfeed]

/-- The reader gives the fault, or it comes to another reader that has read the expression and
goes on where the routine stopped. -/
def Follows (length : Nat) (t : Reader) (us : Rest) (Q : Regex → Reader → Prop) : Outcome → Prop
  | .ok (e, vs) => ∃ u, Q e u ∧ complete length t us = complete length u vs
  | .error f => complete length t us = .error f

/-- Routines one after the other are followed by readers one after the other. -/
theorem Follows.trans (h : Follows length t us Q (.ok (e, vs)))
    (hnext : ∀ u, Q e u → Follows length u vs Q' o) : Follows length t us Q' o := by
  obtain ⟨u, hu, heq⟩ := h
  have hu' := hnext u hu
  cases o with
  | error f => exact heq.trans hu'
  | ok a =>
    obtain ⟨x, hx, heq'⟩ := hu'
    exact ⟨x, hx, heq.trans heq'⟩

/-- A routine is followed by a reader if it is by one that comes to the same. -/
theorem Follows.of_eq (h : complete length t us = complete length u vs)
    (hu : Follows length u vs Q o) : Follows length t us Q o := by
  cases o with
  | error f => exact h.trans hu
  | ok a =>
    obtain ⟨x, hx, heq⟩ := hu
    exact ⟨x, hx, h.trans heq⟩

/-- A reader has read one more operand in a group. -/
def HasOperand (g : Group) (outer : List (Nat × Group)) (e : Regex) (t : Reader) : Prop :=
  t = ⟨g.operand e, outer⟩

/-- A reader has read factors behind the sign of an alternative. -/
def HasSequence (alternatives : Option Regex) (outer : List (Nat × Group)) (e : Regex)
    (t : Reader) : Prop :=
  ∃ factors last, t = ⟨.item alternatives factors last, outer⟩ ∧
    Group.joinConcat factors last = e

/-- A reader has read alternatives, and no sign behind the last one. -/
def HasChoice (outer : List (Nat × Group)) (e : Regex) (t : Reader) : Prop :=
  ∃ alternatives factors last, t = ⟨.item alternatives factors last, outer⟩ ∧
    Group.joinUnion alternatives (Group.joinConcat factors last) = e

/-- A reader has read a group up to its end. -/
def HasGroup (outer : List (Nat × Group)) (e : Regex) (t : Reader) : Prop :=
  t.outer = outer ∧ t.group.value = .ok e

/-- Alternatives without a sign behind them are a group. -/
theorem HasChoice.hasGroup (h : HasChoice outer e t) : HasGroup outer e t := by
  obtain ⟨alternatives, factors, last, rfl, rfl⟩ := h
  exact ⟨rfl, rfl⟩

/-- A sequence without alternatives before it is the first alternative. -/
theorem HasSequence.first (h : HasSequence none outer e t) : HasChoice outer e t := by
  obtain ⟨factors, last, rfl, rfl⟩ := h
  exact ⟨none, factors, last, rfl, rfl⟩

/-- A sequence with alternatives before it is one more alternative. -/
theorem HasSequence.further {left : Regex} (h : HasSequence (some left) outer e t) :
    HasChoice outer (union left e) t := by
  obtain ⟨factors, last, rfl, rfl⟩ := h
  exact ⟨some left, factors, last, rfl, rfl⟩

/-- What readers make of the rest from which a routine gives an outcome: any reader in whose
situation the routine begins. -/
def Routine.Agrees (length : Nat) : Routine → Rest → Outcome → Prop
  | phrase .operand, us, o => ∀ g outer, Follows length ⟨g, outer⟩ us (HasOperand g outer) o
  | phrase .repetition, us, o => ∀ g outer, Follows length ⟨g, outer⟩ us (HasOperand g outer) o
  | signs operand, us, o => ∀ g outer,
      Follows length ⟨g.operand operand, outer⟩ us (HasOperand g outer) o
  | phrase .sequence, us, o => ∀ g outer alternatives,
      (∀ x, g.operand x = .item alternatives none x) →
        Follows length ⟨g, outer⟩ us (HasSequence alternatives outer) o
  | factors left, us, o => ∀ outer alternatives t, HasSequence alternatives outer left t →
      Follows length t us (HasSequence alternatives outer) o
  | phrase .choice, us, o => ∀ outer, Follows length ⟨.fresh, outer⟩ us (HasGroup outer) o
  | alternatives left, us, o => ∀ outer t, HasChoice outer left t →
      Follows length t us (HasGroup outer) o
  | closing opening inner, us, o => ∀ g outer t, HasGroup ((opening, g) :: outer) inner t →
      Follows length t us (HasOperand g outer) o

/-- What is asked of a routine: it stops where it may, and readers agree with it. -/
def Routine.Correct (length : Nat) (r : Routine) (us : Rest) (o : Outcome) : Prop :=
  r.StopsIn o ∧ r.Agrees length us o

/-! ### Each routine -/

/-- A move of a routine keeps to what is asked of routines. -/
def Move.Upholds (length : Nat) (r : Routine) (us : Rest) (m : Move) : Prop :=
  m.Keeps Routine.Begins (Routine.Correct length) r us

/-- A call upholds what is asked if the called routine may begin, the next one may begin where it
stops and stops where the caller may, and the readers agree when both did. -/
theorem upholds_calls {next : Regex → Routine} (hbegins : s.Begins vs)
    (hnext : ∀ e ws, s.Stops ws → (next e).Begins ws)
    (hstops : ∀ e ws, (next e).Stops ws → r.Stops ws)
    (hfails : ∀ f, s.Agrees length vs (.error f) → r.Agrees length us (.error f))
    (hagrees : ∀ e ws o, s.Agrees length vs (.ok (e, ws)) → (next e).Agrees length ws o →
      r.Agrees length us o) : (Move.calls s vs next).Upholds length r us := by
  refine ⟨hbegins, fun f hf => ⟨trivial, hfails f hf.2⟩, fun e ws he => ⟨hnext e ws he.1, ?_⟩⟩
  intro o ho
  refine ⟨?_, hagrees e ws o he.2 ho.2⟩
  cases o with
  | error f => trivial
  | ok a => exact hstops e a.2 ho.1

/-- A repetition is its operand with the signs behind it. -/
theorem upholds_repetition (h : atOperand us = true) :
    (repetition us).Upholds length (.phrase .repetition) us := by
  refine upholds_calls h (fun _ _ _ => trivial) (fun _ _ hs => hs) (fun _ hf => hf) ?_
  intro e ws o hoperand hsigns g outer
  refine (hoperand g outer).trans fun u hu => ?_
  obtain rfl := hu
  exact hsigns g outer

/-- A sequence begins with a repetition. -/
theorem upholds_sequence (h : atOperand us = true) :
    (sequence us).Upholds length (.phrase .sequence) us := by
  refine upholds_calls h (fun _ _ hs => hs) (fun _ _ hs => hs)
    (fun f hf g outer _ _ => hf g outer) ?_
  intro e ws o hfirst hfactors g outer alternatives hg
  -- the first factor is the last one so far, and there are no finished ones before it
  refine (hfirst g outer).trans fun u hu => hfactors outer alternatives u ?_
  exact ⟨none, e, hu.trans (by rw [hg]), rfl⟩

/-- Another factor is read where an operand begins, and the sequence ends elsewhere. -/
theorem upholds_factors {left : Regex} (h : pastSigns us = true) :
    (factors left us).Upholds length (.factors left) us := by
  fun_cases factors left us with
  | case1 hoperand =>
    refine upholds_calls hoperand (fun _ _ hs => hs) (fun _ _ hs => hs) ?fails ?agrees
    case fails =>
      intro f hf outer alternatives t ht
      obtain ⟨factors, last, rfl, rfl⟩ := ht
      exact hf _ outer
    case agrees =>
      intro e ws o hfactor hfactors outer alternatives t ht
      obtain ⟨factors, last, rfl, rfl⟩ := ht
      refine (hfactor _ outer).trans fun u hu => hfactors outer alternatives u ?_
      exact ⟨_, e, hu, rfl⟩
  | case2 hoperand =>
    exact ⟨⟨h, Bool.eq_false_iff.2 hoperand⟩, fun outer alternatives t ht => ⟨t, ht, rfl⟩⟩

/-- A sign that follows an operand is applied to it. -/
theorem complete_sign {x : Regex} (sign : Char) (k : Regex → Regex) (g : Group)
    (outer : List (Nat × Group))
    (h : ∀ t : Reader, t.feed n (tokenAt c us) = t.continueWith n (t.group.applySign sign k)) :
    complete length ⟨g.operand x, outer⟩ ((n, c) :: us) =
      complete length ⟨g.operand (k x), outer⟩ us := by
  refine complete_of_feed ?_
  rw [h, Group.applySign_operand]
  rfl

/-- A `+` is the sign of an alternative if an operand follows, and otherwise belongs to the operand
before it. -/
theorem tokenAt_plus (us : Rest) :
    tokenAt '+' us = if atOperand us then .either '+' else .repeated := by
  cases us <;> rfl

/-- The signs behind an operand are applied as the reader applies them. -/
theorem upholds_signs {x : Regex} : (signs x us).Upholds length (.signs x) us := by
  fun_cases signs x us with
  | case1 => exact ⟨rfl, fun g outer => ⟨_, rfl, rfl⟩⟩
  | case2 n us =>
    refine ⟨trivial, fun o ho => ⟨ho.1, fun g outer => ?_⟩⟩
    exact Follows.of_eq (complete_sign '*' star g outer fun t => rfl) (ho.2 g outer)
  | case3 n us =>
    refine ⟨trivial, fun o ho => ⟨ho.1, fun g outer => ?_⟩⟩
    exact Follows.of_eq (complete_sign '?' (fun x => union x epsilon) g outer fun t => rfl)
      (ho.2 g outer)
  | case4 n c us _ _ hplus =>
    obtain ⟨rfl, hoperand⟩ := hplus
    have htoken : tokenAt '+' us = .repeated := by rw [tokenAt_plus, hoperand]; rfl
    refine ⟨trivial, fun o ho => ⟨ho.1, fun g outer => ?_⟩⟩
    refine Follows.of_eq (complete_sign '+' (fun x => concat x (star x)) g outer fun t => ?_)
      (ho.2 g outer)
    rw [htoken]
    rfl
  | case5 n c us hstar hoptional hplus =>
    refine ⟨?_, fun g outer => ⟨_, rfl, rfl⟩⟩
    exact pastSigns_cons_iff.2 ⟨hstar, hoptional, fun hc => by simpa [hc] using hplus⟩

/-- At a sign without an operand nothing else is expected. -/
theorem complete_fresh (hstart : startsOperand c = false) (hc : c ≠ ')')
    (outer : List (Nat × Group)) :
    complete length ⟨.fresh, outer⟩ ((n, c) :: us) = .error ⟨n, .missingOperand c⟩ := by
  have htoken : tokenAt c us ≠ .closing := fun h => hc (Token.classify_eq_closing_iff.1 h)
  have hlacks := Group.Lacks.fresh htoken
  rw [tokenAt, Token.char_classify] at hlacks
  refine complete_of_feed_error (Reader.feed_eq_error_iff.2 (.inr ⟨?_, c, hlacks, rfl⟩))
  rw [tokenAt, Token.beginsOperand_classify, hstart]

/-- Alternatives begin with a sequence, and may be missing. -/
theorem upholds_choice : (choice us).Upholds length (.phrase .choice) us := by
  fun_cases choice us with
  | case1 => exact ⟨rfl, fun outer => ⟨⟨.fresh, outer⟩, ⟨rfl, rfl⟩, rfl⟩⟩
  | case2 n us => exact ⟨rfl, fun outer => ⟨⟨.fresh, outer⟩, ⟨rfl, rfl⟩, rfl⟩⟩
  | case3 n c us _ hoperand =>
    refine upholds_calls hoperand (fun _ _ hs => hs) (fun _ _ hs => hs)
      (fun f hf outer => hf .fresh outer none fun x => rfl) ?_
    intro e ws o hfirst hothers outer
    exact (hfirst .fresh outer none fun x => rfl).trans fun u hu => hothers outer u hu.first
  | case4 n c us hc hoperand =>
    exact ⟨trivial, complete_fresh (Bool.eq_false_iff.2 hoperand) hc⟩

/-- A sign that asks for an alternative is reported if no operand follows it. -/
theorem complete_awaiting {left : Regex} {sign : Char} (h : atOperand us = false)
    (outer : List (Nat × Group)) : complete length ⟨.awaiting left sign, outer⟩ us =
      .error ⟨position length us, .missingOperand sign⟩ := by
  cases us with
  | nil => rfl
  | cons u us =>
    obtain ⟨m, d⟩ := u
    have hlacks : Group.Lacks (tokenAt d us) (.awaiting left sign) sign := .awaiting left sign
    refine complete_of_feed_error (Reader.feed_eq_error_iff.2 (.inr ⟨?_, sign, hlacks, rfl⟩))
    rw [tokenAt, Token.beginsOperand_classify]
    exact h

/-- A sign between alternatives asks for another one. -/
theorem complete_either {left : Regex} (ht : HasChoice outer left t)
    (htoken : tokenAt c us = .either c) :
    complete length t ((n, c) :: us) = complete length ⟨.awaiting left c, outer⟩ us := by
  obtain ⟨alternatives, factors, last, rfl, rfl⟩ := ht
  refine complete_of_feed ?_
  rw [htoken]
  rfl

/-- A `|`, and a `+` that an operand follows, is a sign between alternatives. -/
theorem tokenAt_eq_either (hc : c = '|' ∨ c = '+') (h : c = '+' → atOperand us = true) :
    tokenAt c us = .either c := by
  rcases hc with rfl | rfl
  · rfl
  · rw [tokenAt_plus, h rfl]
    rfl

/-- Another alternative is read behind a sign for it, and the choice ends elsewhere. -/
theorem upholds_alternatives {left : Regex}
    (h : pastSigns us = true ∧ atOperand us = false) :
    (alternatives length left us).Upholds length (.alternatives left) us := by
  obtain ⟨hsigns, hnone⟩ := h
  fun_cases alternatives length left us with
  | case1 => exact ⟨rfl, fun outer t ht => ⟨t, ht.hasGroup, rfl⟩⟩
  | case2 n c us hc hoperand =>
    have htoken := tokenAt_eq_either hc fun _ => hoperand
    refine upholds_calls hoperand (fun _ _ hs => hs) (fun _ _ hs => hs) ?fails ?agrees
    case fails =>
      intro f hf outer t ht
      refine Follows.of_eq (complete_either ht htoken) ?_
      exact hf (.awaiting left c) outer (some left) fun x => rfl
    case agrees =>
      intro e ws o hright hothers outer t ht
      refine Follows.of_eq (complete_either ht htoken) ?_
      refine (hright (.awaiting left c) outer (some left) fun x => rfl).trans fun u hu => ?_
      exact hothers outer u hu.further
  | case3 n c us hc hoperand =>
    -- a `+` that no operand follows would have been a sign of the operand before it
    obtain ⟨-, -, hplus⟩ := pastSigns_cons_iff.1 hsigns
    refine ⟨trivial, fun outer t ht => ?_⟩
    rw [Follows, complete_either ht (tokenAt_eq_either hc hplus)]
    exact complete_awaiting (Bool.eq_false_iff.2 hoperand) outer
  | case4 n c us hc =>
    exact ⟨atEnd_of_pastSigns hsigns hnone hc, fun outer t ht => ⟨t, ht.hasGroup, rfl⟩⟩

/-- An operand is a symbol, the sign of the empty word, or a group. -/
theorem upholds_operand (h : atOperand us = true) :
    (operand length us).Upholds length (.phrase .operand) us := by
  fun_cases operand length us with
  | case1 => cases h
  | case2 n us =>
    -- the group around waits with its position while the inner one is read
    have hopened : ∀ g outer, complete length ⟨g, outer⟩ ((n, '(') :: us) =
        complete length ⟨.fresh, (n, g) :: outer⟩ us := fun g outer => complete_of_feed rfl
    refine upholds_calls trivial (fun _ _ hs => hs) (fun _ _ hs => hs) ?fails ?agrees
    case fails => exact fun f hf g outer => .of_eq (hopened g outer) (hf ((n, g) :: outer))
    case agrees =>
      intro e ws o hinner hclosing g outer
      refine Follows.of_eq (hopened g outer) ?_
      exact (hinner ((n, g) :: outer)).trans (hclosing g outer)
  | case3 n us => exact ⟨trivial, fun g outer => ⟨_, rfl, complete_of_feed rfl⟩⟩
  | case4 n c us hopening _ hoperator =>
    simp [atOperand, startsOperand, hopening, hoperator] at h
  | case5 n c us _ hepsilon hoperator =>
    have htoken : tokenAt c us = .symbol c :=
      Token.classify_eq_symbol_iff.2 ⟨Bool.eq_false_iff.2 hoperator, hepsilon⟩
    refine ⟨trivial, fun g outer => ⟨_, rfl, complete_of_feed ?_⟩⟩
    rw [htoken]
    rfl

/-- A group ends at its `)`, and is never closed at the end of the pattern. -/
theorem upholds_closing {opening : Nat} {inner : Regex} (h : atEnd us = true) :
    (closing opening inner us).Upholds length (.closing opening inner) us := by
  fun_cases closing opening inner us with
  | case1 =>
    refine ⟨trivial, fun g outer t ht => ?_⟩
    show t.finish length = _
    simp only [Reader.finish, ht.1, ht.2]
  | case2 m us =>
    refine ⟨trivial, fun g outer t ht => ⟨_, rfl, complete_of_feed ?_⟩⟩
    show t.close m = _
    simp only [Reader.close, ht.1, ht.2]
  | case3 m c us hc => exact absurd (beq_iff_eq.1 h) hc

/-- **Every routine** stops where it may and agrees with the readers, if it begins where it
may. -/
theorem isContract_correct (length : Nat) :
    IsContract length Routine.Begins (Routine.Correct length) := by
  intro r us h
  cases r with
  | phrase layer =>
    cases layer with
    | operand => exact upholds_operand h
    | repetition => exact upholds_repetition h
    | sequence => exact upholds_sequence h
    | choice => exact upholds_choice
  | alternatives left => exact upholds_alternatives h
  | factors left => exact upholds_factors h
  | signs x => exact upholds_signs
  | closing opening inner => exact upholds_closing h

/-! ### Whole patterns -/

/-- **A pattern is read** as what comes of its alternatives says. -/
theorem read_eq_conclude {cs : List Char} (h : Begun cs o) : read cs = conclude o := by
  have hcorrect : (Routine.phrase .choice).Correct cs.length (Token.visible 0 cs) o :=
    (isContract_correct cs.length).post_of_gives h trivial
  obtain ⟨hstops, hagrees⟩ := hcorrect
  have hfollows := hagrees []
  show complete cs.length .initial (Token.visible 0 cs) = _
  cases o with
  | error f => exact hfollows
  | ok a =>
    obtain ⟨e, vs⟩ := a
    obtain ⟨u, ⟨houter, hvalue⟩, heq⟩ := hfollows
    refine heq.trans ?_
    cases vs with
    | nil =>
      show u.finish cs.length = .ok e
      simp only [Reader.finish, hvalue, houter]
    | cons v vs =>
      obtain ⟨n, c⟩ := v
      obtain rfl : c = ')' := beq_iff_eq.1 hstops
      refine complete_of_feed_error ?_
      show u.close n = _
      simp only [Reader.close, hvalue, houter]

end Descent
end Regex
end LanguageForms
