/-
# A fault points at the first place that does not fit

Reading stops at the first token that the reader cannot take in, or at the end of the
pattern.  Which token a `+` is depends on the character behind it, so the tokens of
the beginning of a pattern are known only together with the character that comes next
(`Token.scanBefore`).  No token but a `+` depends on it, and a `+` depends only on
whether an operand can begin there (`Token.scanBefore_congr`).

A reader refuses a token for one of two reasons (`Reader.feed_eq_error_iff`): a `)`
ends the whole pattern, or a sign is without its operand (`Group.Lacks`).  A sign that
waits for its operand is the last thing that was read
(`Reader.last_of_feedAll`), so with an operand and enough `)` behind it the beginning
can be read, and with the refused character behind it nothing can.  At the end of the
pattern the account of open brackets (`Reader.unclosed_of_feedAll`) says which `(` is
reported.
-/
import Mathlib.Data.List.Induction
import LanguageForms.Proofs.Regex.Printing
import LanguageForms.Proofs.Text.Brackets

namespace LanguageForms
namespace Regex

variable {cs ds : List Char} {c sign : Char} {next other : Option Char}
  {us vs ws : List (Nat × Char)} {ps qs : List (Nat × Token)} {n : Nat} {t : Token}

/-! ### The tokens of a beginning -/

namespace Token

/-- The tokens of characters with positions, when a given character comes next. -/
def followedBy (next : Option Char) : List (Nat × Char) → List (Nat × Token)
  | [] => []
  | (n, c) :: vs => (n, classify c ((vs.head?.map Prod.snd).or next)) :: followedBy next vs

/-- The tokens of the beginning of a pattern, when a given character that is no blank comes
next. -/
def scanBefore (next : Option Char) (cs : List Char) : List (Nat × Token) :=
  followedBy next (visible 0 cs)

/-- Whether an operand can begin with the token. -/
def beginsOperand : Token → Bool
  | symbol _ => true
  | epsilon => true
  | opening => true
  | _ => false

/-- The token of a character begins an operand if the character does. -/
theorem beginsOperand_classify (c : Char) (next : Option Char) :
    (classify c next).beginsOperand = startsOperand c := by
  by_cases hsymbol : isOperator c = false ∧ c ≠ 'ε'
  · rw [classify_eq_symbol_iff.2 hsymbol, startsOperand, hsymbol.1]
    exact (Bool.or_true _).symm
  · have hc : c = '(' ∨ c = ')' ∨ c = '|' ∨ c = '+' ∨ c = '*' ∨ c = '?' ∨ c = 'ε' := by
      simp only [isOperator] at hsymbol
      grind
    rcases hc with rfl | rfl | rfl | rfl | rfl | rfl | rfl
    case inr.inr.inr.inl =>
      rw [classify_plus]
      split <;> rfl
    all_goals rfl

/-- The opening token is that of `(`. -/
theorem classify_eq_opening_iff : classify c next = opening ↔ c = '(' := by
  refine ⟨fun h => ?_, fun h => h ▸ rfl⟩
  rw [← char_classify c next, h]
  rfl

/-- The closing token is that of `)`. -/
theorem classify_eq_closing_iff : classify c next = closing ↔ c = ')' := by
  refine ⟨fun h => ?_, fun h => h ▸ rfl⟩
  rw [← char_classify c next, h]
  rfl

/-- A character that stands between alternatives is a `|` or a `+` in front of an operand. -/
theorem eq_bar_of_classify (h : classify c next = either sign)
    (hnext : ∀ d ∈ next, startsOperand d = false) : sign = '|' ∧ c = '|' := by
  have hc : c = sign := by
    rw [← char_classify c next, h]
    rfl
  subst hc
  by_cases hplus : c = '+'
  · subst hplus
    rw [classify_plus, if_neg] at h
    · cases h
    · rw [Option.any_eq_true]
      rintro ⟨d, hd, hd'⟩
      rw [hnext d hd] at hd'
      cases hd'
  · have hbar : c = '|' := by
      simp only [classify] at h
      grind
    exact ⟨hbar, hbar⟩

/-- Only for a `+` it matters what comes next, and only whether it begins an operand. -/
theorem classify_congr (h : c ≠ '+' ∨ next.any startsOperand = other.any startsOperand) :
    classify c next = classify c other := by
  by_cases hc : c = '+'
  · subst hc
    rw [classify_plus, classify_plus, h.resolve_left (fun hne => hne rfl)]
  · rw [classify_of_ne_plus hc, classify_of_ne_plus hc]

/-- The first part of some characters sees the head of the second part. -/
theorem ofVisible_append (us ws : List (Nat × Char)) :
    ofVisible (us ++ ws) = followedBy (ws.head?.map Prod.snd) us ++ ofVisible ws := by
  induction us with
  | nil => rfl
  | cons u us ih =>
    obtain ⟨n, c⟩ := u
    have hhead : (us ++ ws).head?.map Prod.snd =
        (us.head?.map Prod.snd).or (ws.head?.map Prod.snd) := by
      cases us <;> rfl
    simp only [List.cons_append, ofVisible, followedBy, ih, hhead]

/-- The last character sees what comes next, and the others see the last one. -/
theorem followedBy_concat (next : Option Char) (vs : List (Nat × Char)) (n : Nat) (c : Char) :
    followedBy next (vs ++ [(n, c)]) = followedBy (some c) vs ++ [(n, classify c next)] := by
  induction vs with
  | nil => rfl
  | cons v vs ih =>
    have hhead : ((vs ++ [(n, c)]).head?.map Prod.snd).or next =
        (vs.head?.map Prod.snd).or (some c) := by
      cases vs <;> rfl
    simp only [List.cons_append, followedBy, ih, hhead]

/-- The positions of a second part go on where those of the first part end. -/
theorem visible_append (n : Nat) (cs ds : List Char) :
    visible n (cs ++ ds) = visible n cs ++ visible (n + cs.length) ds := by
  induction cs generalizing n with
  | nil => rfl
  | cons c cs ih =>
    have hlength : n + (c :: cs).length = n + 1 + cs.length := by
      rw [List.length_cons]
      omega
    rw [List.cons_append, visible, visible, ih, hlength]
    split <;> rfl

/-- A whole pattern is a beginning that nothing follows. -/
theorem scan_eq_scanBefore (cs : List Char) : scan cs = scanBefore none cs := by
  have happend := ofVisible_append (visible 0 cs) []
  rw [List.append_nil] at happend
  exact happend.trans (List.append_nil _)

/-- A blank is no token. -/
theorem scanBefore_concat_of_blank (hc : Text.isBlank c = true) (next : Option Char)
    (cs : List Char) : scanBefore next (cs ++ [c]) = scanBefore next cs := by
  have hvisible : visible (0 + cs.length) [c] = [] := by simp [visible, hc]
  rw [scanBefore, visible_append, hvisible, List.append_nil, scanBefore]

/-- Any other character is one more token. -/
theorem scanBefore_concat (hc : Text.isBlank c = false) (next : Option Char) (cs : List Char) :
    scanBefore next (cs ++ [c]) = scanBefore (some c) cs ++ [(cs.length, classify c next)] := by
  have hvisible : visible (0 + cs.length) [c] = [(cs.length, c)] := by simp [visible, hc]
  rw [scanBefore, visible_append, hvisible, followedBy_concat, scanBefore]

/-- The tokens of a pattern around one of its characters. -/
theorem scan_append_cons (hc : Text.isBlank c = false) (cs ds : List Char) :
    ∃ next qs, scan (cs ++ c :: ds) =
      scanBefore (some c) cs ++ (cs.length, classify c next) :: qs := by
  have hvisible : visible (0 + cs.length) (c :: ds) =
      (cs.length, c) :: visible (cs.length + 1) ds := by
    simp [visible, hc]
  rw [scan, visible_append, hvisible, ofVisible_append]
  exact ⟨_, _, rfl⟩

/-- What comes next does not matter if no operand begins there, or behind any character but a
`+`. -/
theorem scanBefore_congr
    (h : Text.lastVisible? cs ≠ some '+' ∨ next.any startsOperand = other.any startsOperand) :
    scanBefore next cs = scanBefore other cs := by
  rw [Text.lastVisible?, ← map_snd_visible 0] at h
  unfold scanBefore
  rcases List.eq_nil_or_concat (visible 0 cs) with hnil | ⟨vs, ⟨n, c⟩, hvs⟩
  · rw [hnil]
    rfl
  · have hc : c ≠ '+' ∨ next.any startsOperand = other.any startsOperand := by
      refine h.imp_left fun hlast hc => hlast ?_
      simp [hvs, hc]
    rw [hvs, List.concat_eq_append, followedBy_concat, followedBy_concat, classify_congr hc]

/-- In front of what begins no operand the tokens are those of a whole pattern. -/
theorem scanBefore_eq_scan (h : ∀ d ∈ next, startsOperand d = false) :
    scanBefore next cs = scan cs := by
  rw [scan_eq_scanBefore]
  refine scanBefore_congr (.inr ?_)
  cases next with
  | none => rfl
  | some d => exact h d rfl

end Token

/-! ### What a reader refuses -/

/-- When the token comes, the group lacks an operand for the sign. -/
inductive Group.Lacks (t : Token) : Group → Char → Prop where
  | fresh : t ≠ .closing → Lacks t .fresh t.char
  | awaiting (e : Regex) (sign : Char) : Lacks t (.awaiting e sign) sign

/-- Behind an operand the last factor of the group is there. -/
theorem Group.exists_operand_eq (g : Group) (e : Regex) :
    ∃ alternatives factors last, g.operand e = .item alternatives factors last := by
  cases g <;> exact ⟨_, _, _, rfl⟩

/-- What a sign has been applied to is an operand. -/
theorem Group.exists_of_applySign {g k : Group} {f : Regex → Regex}
    (h : g.applySign sign f = .ok k) :
    ∃ alternatives factors last, k = .item alternatives factors last := by
  cases g with
  | fresh => cases h
  | item => exact ⟨_, _, _, (Except.ok.inj h).symm⟩
  | awaiting => cases h

/-- Behind the sign for an alternative one is awaited. -/
theorem Group.exists_of_alternative {g k : Group} (h : g.alternative sign = .ok k) :
    ∃ e, k = .awaiting e sign := by
  cases g with
  | fresh => cases h
  | item => exact ⟨_, (Except.ok.inj h).symm⟩
  | awaiting => cases h

namespace Reader

variable {r s : Reader} {f : Fault}

/-- **A token is refused** if it is a `)` that ends no group, or if it begins no operand and the
group lacks one. -/
theorem feed_eq_error_iff : r.feed n t = .error f ↔
    (t = .closing ∧ r.outer = [] ∧ (∃ v, r.group.value = .ok v) ∧ f = ⟨n, .unbalanced⟩) ∨
      (t.beginsOperand = false ∧ ∃ sign, r.group.Lacks t sign ∧ f = ⟨n, .missingOperand sign⟩) := by
  obtain ⟨g, outer⟩ := r
  constructor
  · intro h
    cases t with
    | symbol c => cases h
    | epsilon => cases h
    | opening => cases h
    | closing =>
      cases g with
      | awaiting e sign =>
        obtain rfl := Except.error.inj h
        exact .inr ⟨rfl, sign, .awaiting e sign, rfl⟩
      | fresh =>
        cases outer with
        | nil => exact .inl ⟨rfl, rfl, ⟨_, rfl⟩, (Except.error.inj h).symm⟩
        | cons => cases h
      | item =>
        cases outer with
        | nil => exact .inl ⟨rfl, rfl, ⟨_, rfl⟩, (Except.error.inj h).symm⟩
        | cons => cases h
    | _ =>
      cases g with
      | item => cases h
      | fresh =>
        obtain rfl := Except.error.inj h
        exact .inr ⟨rfl, _, .fresh nofun, rfl⟩
      | awaiting e sign =>
        obtain rfl := Except.error.inj h
        exact .inr ⟨rfl, sign, .awaiting e sign, rfl⟩
  · rintro (⟨rfl, hout, ⟨v, hv⟩, rfl⟩ | ⟨ht, sign, hlacks, rfl⟩)
    · obtain rfl : outer = [] := hout
      have hvalue : g.value = .ok v := hv
      simp only [feed, close, hvalue]
    · obtain hg | hg : (g = .fresh ∧ t ≠ .closing ∧ sign = t.char) ∨
          ∃ e, g = .awaiting e sign := by
        cases hlacks with
        | fresh hne => exact .inl ⟨rfl, hne, rfl⟩
        | awaiting e => exact .inr ⟨e, rfl⟩
      · obtain ⟨rfl, hne, rfl⟩ := hg
        cases t <;> first | exact absurd rfl hne | rfl | cases ht
      · obtain ⟨e, rfl⟩ := hg
        cases t <;> first | rfl | cases ht

/-- What is refused is refused whatever follows. -/
theorem feedAll_append_of_error (h : r.feedAll ps = .error f) :
    r.feedAll (ps ++ qs) = .error f := by
  induction ps generalizing r with
  | nil => cases h
  | cons p ps ih =>
    unfold Reader.feedAll at h
    rw [List.cons_append, Reader.feedAll]
    split at h
    · exact ih h
    · exact h

/-- A token that is refused makes the whole be refused. -/
theorem feedAll_append_refused (h : r.feedAll ps = .ok s) (hf : s.feed n t = .error f) :
    r.feedAll (ps ++ (n, t) :: qs) = .error f := by
  rw [feedAll_append h, Reader.feedAll, hf]

/-- What comes of more tokens, if everything is read. -/
theorem exists_of_feedAll_append (h : r.feedAll (ps ++ qs) = .ok s) :
    ∃ u, r.feedAll ps = .ok u ∧ u.feedAll qs = .ok s := by
  cases hps : r.feedAll ps with
  | error fault =>
    rw [feedAll_append_of_error hps] at h
    cases h
  | ok u => exact ⟨u, rfl, (feedAll_append hps).symm.trans h⟩

/-- What comes of one more token, if everything before it is read. -/
theorem exists_of_feedAll_concat (h : r.feedAll (ps ++ [(n, t)]) = .ok s) :
    ∃ u, r.feedAll ps = .ok u ∧ u.feed n t = .ok s := by
  obtain ⟨u, hu, hs⟩ := exists_of_feedAll_append h
  refine ⟨u, hu, ?_⟩
  unfold feedAll at hs
  split at hs
  · next v hv => exact hv.trans hs
  · cases hs

/-- **Reading stops** at a character that is refused after everything before it was read. -/
theorem exists_of_feedAll_error (h : initial.feedAll (Token.scanBefore next cs) = .error f) :
    ∃ before c after s other, cs = before ++ c :: after ∧ Text.isBlank c = false ∧
      initial.feedAll (Token.scanBefore (some c) before) = .ok s ∧
        s.feed before.length (Token.classify c other) = .error f := by
  induction cs using List.reverseRecOn generalizing next with
  | nil => cases h
  | append_singleton cs c ih =>
    cases hc : Text.isBlank c with
    | true =>
      rw [Token.scanBefore_concat_of_blank hc] at h
      obtain ⟨before, d, after, s, other, rfl, hd, hs, hf⟩ := ih h
      exact ⟨before, d, after ++ [c], s, other, by simp, hd, hs, hf⟩
    | false =>
      rw [Token.scanBefore_concat hc] at h
      cases hcs : initial.feedAll (Token.scanBefore (some c) cs) with
      | error fault =>
        obtain rfl := Except.error.inj ((feedAll_append_of_error hcs).symm.trans h)
        obtain ⟨before, d, after, s, other, rfl, hd, hs, hf⟩ := ih hcs
        exact ⟨before, d, after ++ [c], s, other, by simp, hd, hs, hf⟩
      | ok s =>
        refine ⟨cs, c, [], s, next, rfl, hc, hcs, ?_⟩
        cases hs : s.feed cs.length (Token.classify c next) with
        | error fault => exact (feedAll_append_refused hcs hs).symm.trans h
        | ok u =>
          rw [feedAll_concat hcs hs] at h
          cases h

/-! ### What was read last -/

/-- A `)` hands its group to the one around it. -/
theorem exists_of_close (h : r.close n = .ok s) : ∃ v m g rest, r.group.value = .ok v ∧
    r.outer = (m, g) :: rest ∧ s = ⟨g.operand v, rest⟩ := by
  unfold close at h
  split at h
  · cases h
  · next v hv =>
    split at h
    · cases h
    · next m g rest hout => exact ⟨v, m, g, rest, hv, hout, (Except.ok.inj h).symm⟩

/-- The group is without an operand behind a `(` and behind a sign that asks for one, and behind no
other token. -/
theorem group_of_feed (h : r.feed n t = .ok s) :
    (∃ alternatives factors last, s.group = .item alternatives factors last) ∨
      (s.group = .fresh ∧ t = .opening) ∨
        ∃ e sign, s.group = .awaiting e sign ∧ t = .either sign := by
  cases t with
  | symbol c =>
    obtain rfl := Except.ok.inj h
    exact .inl (r.group.exists_operand_eq _)
  | epsilon =>
    obtain rfl := Except.ok.inj h
    exact .inl (r.group.exists_operand_eq _)
  | opening =>
    obtain rfl := Except.ok.inj h
    exact .inr (.inl ⟨rfl, rfl⟩)
  | closing =>
    obtain ⟨v, m, g, rest, -, -, rfl⟩ := exists_of_close h
    exact .inl (g.exists_operand_eq v)
  | either sign =>
    obtain ⟨g, hg, rfl⟩ := exists_of_continueWith h
    obtain ⟨e, rfl⟩ := Group.exists_of_alternative hg
    exact .inr (.inr ⟨e, sign, rfl, rfl⟩)
  | star =>
    obtain ⟨g, hg, rfl⟩ := exists_of_continueWith h
    exact .inl (Group.exists_of_applySign hg)
  | optional =>
    obtain ⟨g, hg, rfl⟩ := exists_of_continueWith h
    exact .inl (Group.exists_of_applySign hg)
  | repeated =>
    obtain ⟨g, hg, rfl⟩ := exists_of_continueWith h
    exact .inl (Group.exists_of_applySign hg)

/-- **A group that lacks an operand** has a `|` or a `(` before the place, or nothing at all. -/
theorem last_of_feedAll (h : initial.feedAll (Token.scanBefore next cs) = .ok s)
    (hnext : ∀ d ∈ next, startsOperand d = false) :
    (s.group = .fresh → Text.lastVisible? cs ≠ some '+') ∧
      ∀ e sign, s.group = .awaiting e sign → sign = '|' ∧ Text.lastVisible? cs = some '|' := by
  rw [Text.lastVisible?, ← Token.map_snd_visible 0]
  unfold Token.scanBefore at h
  rcases List.eq_nil_or_concat (Token.visible 0 cs) with hnil | ⟨vs, ⟨n, c⟩, hvs⟩
  · rw [hnil] at h ⊢
    obtain rfl := Except.ok.inj h
    exact ⟨fun _ => nofun, nofun⟩
  · rw [hvs, List.concat_eq_append] at h ⊢
    rw [Token.followedBy_concat] at h
    obtain ⟨u, -, hu⟩ := exists_of_feedAll_concat h
    have hlast : ((vs ++ [(n, c)]).map Prod.snd).getLast? = some c := by simp
    rw [hlast]
    rcases group_of_feed hu with ⟨_, _, _, hitem⟩ | ⟨hfresh, ht⟩ | ⟨e, sign, hawaiting, ht⟩
    · simp [hitem]
    · obtain rfl := Token.classify_eq_opening_iff.1 ht
      simp [hfresh]
    · obtain ⟨rfl, rfl⟩ := Token.eq_bar_of_classify ht hnext
      simp [hawaiting]

/-! ### How a pattern can go on -/

/-- A `)` for every open group ends the pattern, if no operand is missing. -/
theorem exists_feedAll_closing {g : Group} {outer : List (Nat × Group)} (ns : List Nat)
    (hg : ∃ v, g.value = .ok v) (hns : ns.length = outer.length) :
    ∃ k, feedAll ⟨g, outer⟩ (ns.map fun n => (n, Token.closing)) = .ok ⟨k, []⟩ ∧
      ∃ v, k.value = .ok v := by
  induction ns generalizing g outer with
  | nil =>
    obtain rfl : outer = [] := List.length_eq_zero_iff.1 hns.symm
    exact ⟨g, rfl, hg⟩
  | cons n ns ih =>
    obtain ⟨v, hv⟩ := hg
    cases outer with
    | nil => cases hns
    | cons k outer =>
      obtain ⟨m, k⟩ := k
      have hclose : feed ⟨g, (m, k) :: outer⟩ n .closing = .ok ⟨k.operand v, outer⟩ := by
        simp only [feed, close, hv]
      have hoperand : ∃ w, (k.operand v).value = .ok w := by
        obtain ⟨alternatives, factors, last, hitem⟩ := k.exists_operand_eq v
        rw [hitem]
        exact ⟨_, rfl⟩
      obtain ⟨u, hu, hvalue⟩ := ih hoperand (Nat.succ.inj hns)
      refine ⟨u, ?_, hvalue⟩
      rw [List.map_cons, feedAll, hclose]
      exact hu

end Reader

/-- Closing brackets at the end do not change the tokens before them. -/
theorem Token.scan_append_closing (cs : List Char) (k : Nat) :
    ∃ ns : List Nat, ns.length = k ∧
      scan (cs ++ List.replicate k ')') = scan cs ++ ns.map fun n => (n, Token.closing) := by
  induction k with
  | zero => exact ⟨[], rfl, by simp⟩
  | succ k ih =>
    obtain ⟨ns, hns, hscan⟩ := ih
    refine ⟨ns ++ [cs.length + k], by simp [hns], ?_⟩
    have hbefore : scanBefore (some ')') (cs ++ List.replicate k ')') =
        scan (cs ++ List.replicate k ')') := scanBefore_eq_scan (by simp; rfl)
    rw [List.replicate_succ', ← List.append_assoc, scan_eq_scanBefore, scanBefore_concat rfl,
      hbefore, hscan]
    simp
    rfl

/-- The pattern can be read. -/
def IsReadable (cs : List Char) : Prop := ∃ r, parse (String.ofList cs) = .ok r

/-- A pattern can be read if reading gives an expression. -/
theorem isReadable_iff : IsReadable cs ↔ ∃ r, read cs = .ok r := by
  simp only [IsReadable, parse_eq_ok_iff, String.toList_ofList]

open Reader

variable {s : Reader} {f : Fault}

/-- If no operand is missing, then the pattern with a `)` for every open group can be read. -/
theorem isReadable_append_closing (h : initial.feedAll (Token.scan cs) = .ok s)
    (hs : ∃ v, s.group.value = .ok v) :
    IsReadable (cs ++ List.replicate s.outer.length ')') := by
  obtain ⟨ns, hns, hscan⟩ := Token.scan_append_closing cs s.outer.length
  obtain ⟨g, hclosed, v, hv⟩ := exists_feedAll_closing ns hs hns
  rw [isReadable_iff, read, hscan, feedAll_append h, hclosed]
  refine ⟨v, ?_⟩
  simp only [finish, hv]

/-- **The beginning can be completed** if the group lacks an operand: one operand, and a `)` for
every open group. -/
theorem exists_isReadable_of_lacks (h : initial.feedAll (Token.scanBefore next cs) = .ok s)
    (hnext : ∀ d ∈ next, startsOperand d = false) (hs : s.group.Lacks t sign) :
    ∃ ds, IsReadable (cs ++ ds) := by
  have hlast : Text.lastVisible? cs ≠ some '+' := by
    obtain ⟨hfresh, hawaiting⟩ := last_of_feedAll h hnext
    generalize s.group = g at hs hfresh hawaiting
    cases hs with
    | fresh => exact hfresh rfl
    | awaiting e sign =>
      rw [(hawaiting e sign rfl).2]
      simp
  have hoperand : initial.feedAll (Token.scan (cs ++ ['ε'])) =
      .ok { s with group := s.group.operand epsilon } := by
    have hsame : Token.scanBefore (some 'ε') cs = Token.scanBefore next cs :=
      Token.scanBefore_congr (.inl hlast)
    rw [Token.scan_eq_scanBefore, Token.scanBefore_concat rfl, hsame]
    exact feedAll_concat h rfl
  have hvalue : ∃ v, (s.group.operand epsilon).value = .ok v := by
    obtain ⟨alternatives, factors, last, hitem⟩ := s.group.exists_operand_eq epsilon
    rw [hitem]
    exact ⟨_, rfl⟩
  have hread := isReadable_append_closing hoperand hvalue
  rw [List.append_assoc] at hread
  exact ⟨_, hread⟩

/-- **Nothing can be read** that goes on with a character at which the group lacks an operand. -/
theorem not_isReadable_of_lacks (h : initial.feedAll (Token.scanBefore (some c) cs) = .ok s)
    (hc : Text.isBlank c = false) (ht : (Token.classify c next).beginsOperand = false)
    (hs : s.group.Lacks (Token.classify c next) sign) : ¬ IsReadable (cs ++ c :: ds) := by
  rw [isReadable_iff]
  rintro ⟨r, hr⟩
  obtain ⟨other, qs, hscan⟩ := Token.scan_append_cons hc cs ds
  -- what follows the character may make it another token, but none that fits
  have hother : ∃ missing, s.group.Lacks (Token.classify c other) missing := by
    generalize s.group = g at hs
    cases hs with
    | fresh hclosing =>
      refine ⟨_, .fresh fun hother => hclosing ?_⟩
      exact Token.classify_eq_closing_iff.2 (Token.classify_eq_closing_iff.1 hother)
    | awaiting e sign => exact ⟨sign, .awaiting e sign⟩
  obtain ⟨missing, hmissing⟩ := hother
  rw [Token.beginsOperand_classify] at ht
  have hfault : s.feed cs.length (Token.classify c other) = _ := feed_eq_error_iff.2 (.inr
    ⟨(Token.beginsOperand_classify c other).trans ht, missing, hmissing, rfl⟩)
  rw [read, hscan, feedAll_append_refused h hfault] at hr
  cases hr

/-! ### The brackets that are open -/

/-- Only brackets change the groups around the open one. -/
theorem Reader.outer_of_feed {r : Reader} (h : r.feed n t = .ok s) (hopening : t ≠ .opening)
    (hclosing : t ≠ .closing) : s.outer = r.outer := by
  cases t with
  | symbol c =>
    obtain rfl := Except.ok.inj h
    rfl
  | epsilon =>
    obtain rfl := Except.ok.inj h
    rfl
  | opening => exact absurd rfl hopening
  | closing => exact absurd rfl hclosing
  | _ =>
    obtain ⟨g, -, rfl⟩ := exists_of_continueWith h
    rfl

/-- **The account of open brackets**: the positions that the reader keeps are those of the open
`(`. -/
theorem Reader.unclosed_of_feedAll (h : initial.feedAll (Token.scanBefore next cs) = .ok s) :
    Text.Unclosed (s.outer.map Prod.fst) cs := by
  induction cs using List.reverseRecOn generalizing next s with
  | nil =>
    obtain rfl := Except.ok.inj h
    exact .nil .nil
  | append_singleton cs c ih =>
    cases hc : Text.isBlank c with
    | true =>
      rw [Token.scanBefore_concat_of_blank hc] at h
      refine (ih h).char ?_ ?_
      · rintro rfl
        cases hc
      · rintro rfl
        cases hc
    | false =>
      rw [Token.scanBefore_concat hc] at h
      obtain ⟨r, hr, hs⟩ := exists_of_feedAll_concat h
      have hbefore := ih hr
      by_cases hopening : Token.classify c next = .opening
      · rw [hopening] at hs
        obtain rfl := Token.classify_eq_opening_iff.1 hopening
        obtain rfl := Except.ok.inj hs
        exact hbefore.opening
      · by_cases hclosing : Token.classify c next = .closing
        · rw [hclosing] at hs
          obtain rfl := Token.classify_eq_closing_iff.1 hclosing
          obtain ⟨v, m, g, rest, -, hout, rfl⟩ := exists_of_close hs
          rw [hout] at hbefore
          exact hbefore.closing
        · rw [outer_of_feed hs hopening hclosing]
          exact hbefore.char (fun heq => hopening (Token.classify_eq_opening_iff.2 heq))
            (fun heq => hclosing (Token.classify_eq_closing_iff.2 heq))

/-! ### Faults -/

/-- What an issue at a place says about the pattern. -/
def Issue.Explains (cs : List Char) (n : Nat) : Issue → Prop
  | unbalanced => cs[n]? = some ')' ∧ IsReadable (cs.take n)
  | missingOperand sign =>
    (∃ ds, IsReadable (cs.take n ++ ds)) ∧
      (n < cs.length → ∀ ds, ¬ IsReadable (cs.take (n + 1) ++ ds)) ∧
        ((sign = '|' ∧ Text.lastVisible? (cs.take n) = some '|') ∨
          (cs[n]? = some sign ∧ startsOperand sign = false))
  | unclosed => Text.IsLastOpen cs n ∧ ∃ k, IsReadable (cs ++ List.replicate k ')')

/-- A fault at a character explains itself. -/
theorem explains_of_feed_error {before : List Char} (after : List Char)
    (hc : Text.isBlank c = false)
    (h : initial.feedAll (Token.scanBefore (some c) before) = .ok s)
    (hf : s.feed before.length (Token.classify c next) = .error f) :
    f.position = before.length ∧ f.issue.Explains (before ++ c :: after) f.position := by
  have hget : (before ++ c :: after)[before.length]? = some c := by simp
  have htake : (before ++ c :: after).take before.length = before := by simp
  rcases feed_eq_error_iff.1 hf with ⟨hclosing, hout, hvalue, rfl⟩ | ⟨ht, sign, hlacks, rfl⟩
  · obtain rfl := Token.classify_eq_closing_iff.1 hclosing
    rw [Token.scanBefore_eq_scan (by simp; rfl)] at h
    have hread := isReadable_append_closing h hvalue
    rw [hout, List.length_nil, List.replicate_zero, List.append_nil] at hread
    refine ⟨rfl, hget, ?_⟩
    rw [htake]
    exact hread
  · have hstart : startsOperand c = false := (Token.beginsOperand_classify c next).symm.trans ht
    have hnext : ∀ d ∈ some c, startsOperand d = false := by
      intro d hd
      rw [← Option.some.inj hd]
      exact hstart
    have htake' : (before ++ c :: after).take (before.length + 1) = before ++ [c] := by
      simp [List.take_append, List.take_of_length_le]
    refine ⟨rfl, ?_, fun _ ds => ?_, ?_⟩
    · rw [htake]
      exact exists_isReadable_of_lacks h hnext hlacks
    · rw [htake', List.append_assoc]
      exact not_isReadable_of_lacks h hc ht hlacks
    · rw [htake, hget]
      generalize hg : s.group = g at hlacks
      cases hlacks with
      | fresh =>
        rw [Token.char_classify]
        exact .inr ⟨rfl, hstart⟩
      | awaiting e sign => exact .inl ((last_of_feedAll h hnext).2 e sign hg)

/-- A fault at the end of the pattern explains itself. -/
theorem explains_of_finish_error (h : initial.feedAll (Token.scan cs) = .ok s)
    (hf : s.finish cs.length = .error f) :
    f.position ≤ cs.length ∧ f.issue.Explains cs f.position := by
  have hbefore : initial.feedAll (Token.scanBefore none cs) = .ok s := by
    rwa [← Token.scan_eq_scanBefore]
  unfold finish at hf
  split at hf
  · next sign hvalue =>
    obtain rfl := Except.error.inj hf
    have hawaiting : ∃ e, s.group = .awaiting e sign := by
      generalize s.group = g at hvalue
      cases g with
      | fresh => cases hvalue
      | item => cases hvalue
      | awaiting e sign =>
        obtain rfl := Except.error.inj hvalue
        exact ⟨e, rfl⟩
    obtain ⟨e, hg⟩ := hawaiting
    have hlacks : s.group.Lacks .closing sign := by
      rw [hg]
      exact .awaiting e sign
    have hread := exists_isReadable_of_lacks hbefore nofun hlacks
    have hlast := (last_of_feedAll hbefore nofun).2 e sign hg
    rw [← List.take_length (l := cs)] at hread hlast
    exact ⟨Nat.le_refl _, hread, fun hlt => absurd hlt (Nat.lt_irrefl _), .inl hlast⟩
  · next v hvalue =>
    split at hf
    · cases hf
    · next n g rest hout =>
      obtain rfl := Except.error.inj hf
      have haccount := unclosed_of_feedAll hbefore
      rw [hout] at haccount
      have hlast := haccount.isLastOpen
      have hread := isReadable_append_closing h ⟨v, hvalue⟩
      have hlt : n < cs.length := (List.getElem?_eq_some_iff.1 hlast.1.1).1
      exact ⟨Nat.le_of_lt hlt, hlast, _, hread⟩

/-- **A syntax error points at the first place that does not fit**, shows the pattern from there
on, and names what is wrong there. -/
theorem parse_error_explains (p : String) (e : SyntaxError) (h : parse p = .error e) :
    e.position ≤ p.toList.length ∧ e.fragment = (p.toList.drop e.position).take 8 ∧
      e.issue.Explains p.toList e.position := by
  unfold parse at h
  cases hread : read p.toList with
  | ok r =>
    rw [hread] at h
    cases h
  | error f =>
    rw [hread] at h
    obtain rfl := Except.error.inj h
    have hexplains : f.position ≤ p.toList.length ∧ f.issue.Explains p.toList f.position := by
      unfold read at hread
      split at hread
      · next s hs => exact explains_of_finish_error hs hread
      · next fault hfault =>
        obtain rfl := Except.error.inj hread
        rw [Token.scan_eq_scanBefore] at hfault
        obtain ⟨before, c, after, s, next, hp, hc, hs, hf⟩ := exists_of_feedAll_error hfault
        obtain ⟨hposition, hexplains⟩ := explains_of_feed_error after hc hs hf
        rw [← hp] at hexplains
        refine ⟨?_, hexplains⟩
        rw [hposition, hp, List.length_append]
        exact Nat.le_add_right _ _
    exact ⟨hexplains.1, rfl, hexplains.2⟩

/-- The hypothesis of `parse_error_explains` is satisfiable by a pattern in which the `)` comes
before the operand of a `|`, behind a `+` that is no sign between alternatives. -/
theorem parse_error_in_group :
    parse "(b+*|\t)a" = .error ⟨6, [')', 'a'], .missingOperand '|'⟩ ∧
      6 ≤ "(b+*|\t)a".toList.length ∧ [')', 'a'] = ("(b+*|\t)a".toList.drop 6).take 8 ∧
        (Issue.missingOperand '|').Explains "(b+*|\t)a".toList 6 :=
  ⟨rfl, parse_error_explains "(b+*|\t)a" _ rfl⟩

end Regex
end LanguageForms
