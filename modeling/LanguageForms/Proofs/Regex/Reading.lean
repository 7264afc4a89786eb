/-
# Reading accepts exactly the grammar of patterns

A reader is a stack of open groups.  `Reader.Holds` says which tokens it has read:
of every group the alternatives that are complete, the factors of the current one
and its last factor, each a phrase of its own, and a `(` between two groups.  Every
token that fits keeps this (`Reader.Holds.feed`), so an expression that is read is
one that the grammar gives (`isPattern_of_read`).

In the other direction the tokens of a phrase are read by induction on the phrase,
by a reader in any situation in which the phrase can begin
(`Phrase.takesIn`).  A repetition is read like a single operand, since a sign
that follows it works on the last factor alone (`Group.applySign_operand`).

`read_eq_ok_iff` puts both together with the tokens of a pattern
(`Token.reads_iff`).
-/
import LanguageForms.Regex.Parser
import LanguageForms.Regex.Phrase
import LanguageForms.Regex.Plain

namespace LanguageForms
namespace Regex

/-! ### Tokens -/

namespace Token

/-- The tokens of characters that are no blanks. -/
def ofChars : List Char → List Token
  | [] => []
  | c :: cs => classify c cs.head? :: ofChars cs

/-- What a `+` is depends on what follows. -/
theorem classify_plus (next : Option Char) :
    classify '+' next = if next.any startsOperand then .either '+' else .repeated := rfl

/-- A character in front of a text is read as its token. -/
theorem reads_classify {c : Char} {cs : List Char} {ts : List Token} (h : Reads cs ts) :
    Reads (c :: cs) (classify c cs.head? :: ts) := by
  by_cases hopening : c = '('
  · exact hopening ▸ .opening h
  by_cases hclosing : c = ')'
  · exact hclosing ▸ .closing h
  by_cases hbar : c = '|'
  · exact hbar ▸ .bar h
  by_cases hstar : c = '*'
  · exact hstar ▸ .star h
  by_cases hoptional : c = '?'
  · exact hoptional ▸ .optional h
  by_cases hplus : c = '+'
  · rw [hplus, classify_plus]
    split
    · next hnext =>
      obtain ⟨d, hd, hd'⟩ := (Option.any_eq_true _ _).1 hnext
      exact .plus ⟨d, hd, hd'⟩ h
    · next hnext =>
      refine .repeated (fun d hd => ?_) h
      rw [Bool.eq_false_iff]
      exact fun hd' => hnext ((Option.any_eq_true _ _).2 ⟨d, hd, hd'⟩)
  by_cases hepsilon : c = 'ε'
  · exact hepsilon ▸ .epsilon h
  have hc : isOperator c = false := by
    simp only [isOperator, Bool.or_eq_false_iff, beq_eq_false_iff_ne]
    exact ⟨⟨⟨⟨⟨hopening, hclosing⟩, hbar⟩, hplus⟩, hstar⟩, hoptional⟩
  rw [classify_eq_symbol_iff.2 ⟨hc, hepsilon⟩]
  exact .symbol hc hepsilon h

/-- **Every character has one role**, which it and the next character decide. -/
theorem reads_iff {cs : List Char} {ts : List Token} : Reads cs ts ↔ ts = ofChars cs := by
  constructor
  · intro h
    induction h with
    | nil => rfl
    | opening _ ih => rw [ih]; rfl
    | closing _ ih => rw [ih]; rfl
    | bar _ ih => rw [ih]; rfl
    | star _ ih => rw [ih]; rfl
    | optional _ ih => rw [ih]; rfl
    | plus hnext _ ih =>
      rw [ofChars, classify_plus, if_pos ((Option.any_eq_true _ _).2 hnext), ih]
    | repeated hnext _ ih =>
      rw [ofChars, classify_plus, if_neg, ih]
      rw [Option.any_eq_true]
      rintro ⟨d, hd, hd'⟩
      rw [hnext d hd] at hd'
      cases hd'
    | epsilon _ ih => rw [ih]; rfl
    | symbol hc hne _ ih => rw [ofChars, classify_eq_symbol_iff.2 ⟨hc, hne⟩, ih]
  · rintro rfl
    induction cs with
    | nil => exact .nil
    | cons c cs ih => exact reads_classify ih

/-- The visible characters are those that are no blanks. -/
theorem map_snd_visible (n : Nat) (cs : List Char) :
    (visible n cs).map Prod.snd = cs.filter fun c => !Text.isBlank c := by
  induction cs generalizing n with
  | nil => rfl
  | cons c cs ih =>
    rw [visible, List.filter_cons]
    cases Text.isBlank c with
    | true => exact ih _
    | false => exact congrArg (c :: ·) (ih _)

/-- The tokens do not depend on the positions. -/
theorem map_snd_ofVisible (vs : List (Nat × Char)) :
    (ofVisible vs).map Prod.snd = ofChars (vs.map Prod.snd) := by
  induction vs with
  | nil => rfl
  | cons v vs ih => rw [ofVisible, List.map_cons, List.map_cons, ofChars, ih, List.head?_map]

/-- The tokens of a pattern are those of its characters that are no blanks. -/
theorem map_snd_scan (pattern : List Char) :
    (scan pattern).map Prod.snd = ofChars (pattern.filter fun c => !Text.isBlank c) := by
  rw [scan, map_snd_ofVisible, map_snd_visible]

end Token

/-! ### What has been read -/

namespace Group

/-- The tokens are alternatives that are complete, with the sign that asks for another one. -/
inductive Alternatives : Option Regex → List Token → Prop where
  | none : Alternatives none []
  | some {r : Regex} {ts : List Token} (sign : Char) :
      Phrase .choice ts r → Alternatives (some r) (ts ++ [.either sign])

/-- The tokens are factors that are finished. -/
inductive Factors : Option Regex → List Token → Prop where
  | none : Factors none []
  | some {r : Regex} {ts : List Token} : Phrase .sequence ts r → Factors (some r) ts

/-- The tokens have been read of a group. -/
inductive Holds : Group → List Token → Prop where
  | fresh : Holds fresh []
  | item {alternatives factors : Option Regex} {last : Regex} {ts us vs : List Token} :
      Alternatives alternatives ts → Factors factors us → Phrase .repetition vs last →
      Holds (item alternatives factors last) (ts ++ (us ++ vs))
  | awaiting {r : Regex} {ts : List Token} (sign : Char) :
      Alternatives (some r) ts → Holds (awaiting r sign) ts

variable {g k : Group} {ts us : List Token} {r : Regex}

/-- Factors with a last one behind them are a sequence. -/
theorem Factors.sequence {factors : Option Regex} (h : Factors factors ts)
    (hlast : Phrase .repetition us r) : Phrase .sequence (ts ++ us) (joinConcat factors r) := by
  cases h with
  | none => exact .repetition hlast
  | some hfactors => exact .concat hfactors hlast

/-- Alternatives with a last one behind them are a choice. -/
theorem Alternatives.choice {alternatives : Option Regex} (h : Alternatives alternatives ts)
    (hu : Phrase .sequence us r) : Phrase .choice (ts ++ us) (joinUnion alternatives r) := by
  cases h with
  | none => exact .sequence hu
  | some sign hts =>
    rw [List.append_assoc]
    exact .union sign hts hu

/-- The expression of a group is the one of its tokens. -/
theorem Holds.isPattern (h : g.Holds ts) (hr : g.value = .ok r) : IsPattern ts r := by
  cases h with
  | fresh =>
    obtain rfl := Except.ok.inj hr
    exact .empty
  | item halt hfac hlast =>
    obtain rfl := Except.ok.inj hr
    exact .choice (halt.choice (hfac.sequence hlast))
  | awaiting => cases hr

/-- A group that reads an operand holds its tokens, too. -/
theorem Holds.operand (h : g.Holds ts) (hu : Phrase .operand us r) :
    (g.operand r).Holds (ts ++ us) := by
  cases h with
  | fresh => exact .item .none .none (.operand hu)
  | item halt hfac hlast =>
    rw [List.append_assoc]
    exact .item halt (.some (hfac.sequence hlast)) (.operand hu)
  | awaiting sign halt => exact .item halt .none (.operand hu)

/-- A sign that follows its operand belongs to the last factor. -/
theorem Holds.applySign {sign : Char} {t : Token} {f : Regex → Regex} (h : g.Holds ts)
    (hk : g.applySign sign f = .ok k)
    (hf : ∀ us r, Phrase .repetition us r → Phrase .repetition (us ++ [t]) (f r)) :
    k.Holds (ts ++ [t]) := by
  cases h with
  | fresh => cases hk
  | item halt hfac hlast =>
    obtain rfl := Except.ok.inj hk
    rw [List.append_assoc, List.append_assoc]
    exact .item halt hfac (hf _ _ hlast)
  | awaiting => cases hk

/-- A group that begins an alternative holds the sign, too. -/
theorem Holds.alternative {sign : Char} (h : g.Holds ts) (hk : g.alternative sign = .ok k) :
    k.Holds (ts ++ [.either sign]) := by
  cases h with
  | fresh => cases hk
  | item halt hfac hlast =>
    obtain rfl := Except.ok.inj hk
    exact .awaiting sign (.some sign (halt.choice (hfac.sequence hlast)))
  | awaiting => cases hk

end Group

/-- A group in brackets is an operand. -/
theorem IsPattern.group {ts : List Token} {r : Regex} (h : IsPattern ts r) :
    Phrase .operand (.opening :: ts ++ [.closing]) r := by
  cases h with
  | empty => exact .emptyGroup
  | choice h => exact .group h

namespace Reader

/-- The tokens have been read, a `(` before every group but the outermost one. -/
inductive Holds : Reader → List Token → Prop where
  | outermost {g : Group} {ts : List Token} : g.Holds ts → Holds ⟨g, []⟩ ts
  | inner {g k : Group} {outer : List (Nat × Group)} {n : Nat} {ts us : List Token} :
      Holds ⟨k, outer⟩ ts → g.Holds us → Holds ⟨g, (n, k) :: outer⟩ (ts ++ .opening :: us)

variable {r s : Reader} {ts us : List Token} {e : Regex} {n : Nat}

/-- What is read of the open group is read of the whole. -/
theorem Holds.inGroup {g : Group} (h : r.Holds ts)
    (hg : ∀ vs, r.group.Holds vs → g.Holds (vs ++ us)) :
    Holds { r with group := g } (ts ++ us) := by
  cases h with
  | outermost hr => exact .outermost (hg _ hr)
  | inner houter hr =>
    rw [List.append_assoc]
    exact .inner houter (hg _ hr)

/-- A reader goes on with a group if there is one. -/
theorem exists_of_continueWith {e : Except Char Group} (h : r.continueWith n e = .ok s) :
    ∃ g, e = .ok g ∧ s = { r with group := g } := by
  cases e with
  | ok g => exact ⟨g, rfl, (Except.ok.inj h).symm⟩
  | error sign => cases h

/-- A reader that closes a group holds the `)`, too. -/
theorem Holds.close (h : r.Holds ts) (hs : r.close n = .ok s) : s.Holds (ts ++ [.closing]) := by
  unfold Reader.close at hs
  split at hs
  · cases hs
  · next value hvalue =>
    cases h with
    | outermost => cases hs
    | @inner g k outer n ts us houter hus =>
      obtain rfl := Except.ok.inj hs
      have hgroup := (hus.isPattern hvalue).group
      rw [List.append_assoc]
      exact houter.inGroup fun vs hvs => hvs.operand hgroup

/-- **A token that fits** is one more token that has been read. -/
theorem Holds.feed {t : Token} (h : r.Holds ts) (hs : r.feed n t = .ok s) :
    s.Holds (ts ++ [t]) := by
  cases t with
  | symbol c =>
    obtain rfl := Except.ok.inj hs
    exact h.inGroup fun vs hvs => hvs.operand (.symbol c)
  | epsilon =>
    obtain rfl := Except.ok.inj hs
    exact h.inGroup fun vs hvs => hvs.operand .epsilon
  | opening =>
    obtain rfl := Except.ok.inj hs
    exact .inner h .fresh
  | closing => exact h.close hs
  | either sign =>
    obtain ⟨g, hg, rfl⟩ := exists_of_continueWith hs
    exact h.inGroup fun vs hvs => hvs.alternative hg
  | star =>
    obtain ⟨g, hg, rfl⟩ := exists_of_continueWith hs
    exact h.inGroup fun vs hvs => hvs.applySign hg fun us r hr => .star hr
  | optional =>
    obtain ⟨g, hg, rfl⟩ := exists_of_continueWith hs
    exact h.inGroup fun vs hvs => hvs.applySign hg fun us r hr => .optional hr
  | repeated =>
    obtain ⟨g, hg, rfl⟩ := exists_of_continueWith hs
    exact h.inGroup fun vs hvs => hvs.applySign hg fun us r hr => .repeated hr

/-- **A reader holds the tokens** that it has read. -/
theorem Holds.feedAll {ps : List (Nat × Token)} (h : r.Holds ts) (hs : r.feedAll ps = .ok s) :
    s.Holds (ts ++ ps.map Prod.snd) := by
  induction ps generalizing r ts with
  | nil =>
    obtain rfl := Except.ok.inj hs
    rwa [List.map_nil, List.append_nil]
  | cons p ps ih =>
    unfold Reader.feedAll at hs
    split at hs
    · next hfeed =>
      have hrest := ih (h.feed hfeed) hs
      rwa [List.append_assoc] at hrest
    · cases hs

/-- What is read at the end of a pattern is what its tokens stand for. -/
theorem Holds.isPattern (h : r.Holds ts) (he : r.finish n = .ok e) : IsPattern ts e := by
  unfold finish at he
  split at he
  · cases he
  · next value hvalue =>
    cases h with
    | outermost hg =>
      obtain rfl := Except.ok.inj he
      exact hg.isPattern hvalue
    | inner => cases he

/-! ### What is taken in -/

/-- Tokens are read one part after the other. -/
theorem feedAll_append {ps qs : List (Nat × Token)} (h : r.feedAll ps = .ok s) :
    r.feedAll (ps ++ qs) = s.feedAll qs := by
  induction ps generalizing r with
  | nil =>
    obtain rfl := Except.ok.inj h
    rfl
  | cons p ps ih =>
    unfold Reader.feedAll at h
    rw [List.cons_append, Reader.feedAll]
    split at h
    · exact ih h
    · cases h

/-- A last token is read last. -/
theorem feedAll_concat {ps : List (Nat × Token)} {t : Token} {u : Reader}
    (h : r.feedAll ps = .ok s) (ht : s.feed n t = .ok u) :
    r.feedAll (ps ++ [(n, t)]) = .ok u := by
  rw [feedAll_append h, Reader.feedAll, ht]
  rfl

end Reader

/-- A sign changes the operand before it and nothing else. -/
theorem Group.applySign_operand (g : Group) (sign : Char) (f : Regex → Regex) (e : Regex) :
    (g.operand e).applySign sign f = .ok (g.operand (f e)) := by
  cases g with
  | fresh => rfl
  | item => rfl
  | awaiting => rfl

/-- How a reader takes in the tokens of a phrase.  An operand and a repetition are one more
operand wherever they stand, a sequence begins where an alternative does, and a choice where a
group does. -/
def Layer.TakesIn (ps : List (Nat × Token)) (e : Regex) : Layer → Prop
  | operand => ∀ g outer, Reader.feedAll ⟨g, outer⟩ ps = .ok ⟨g.operand e, outer⟩
  | repetition => ∀ g outer, Reader.feedAll ⟨g, outer⟩ ps = .ok ⟨g.operand e, outer⟩
  | sequence => ∀ g outer alternatives, (∀ x, g.operand x = .item alternatives none x) →
      ∃ factors last, Reader.feedAll ⟨g, outer⟩ ps = .ok ⟨.item alternatives factors last, outer⟩ ∧
        Group.joinConcat factors last = e
  | choice => ∀ outer, ∃ alternatives factors last,
      Reader.feedAll ⟨.fresh, outer⟩ ps = .ok ⟨.item alternatives factors last, outer⟩ ∧
        Group.joinUnion alternatives (Group.joinConcat factors last) = e

/-- A sign behind a repetition makes another one. -/
theorem Layer.TakesIn.sign {ps qs : List (Nat × Token)} {e : Regex} {t : Token} {c : Char}
    {f : Regex → Regex} (h : Layer.repetition.TakesIn ps e) (hqs : qs.map Prod.snd = [t])
    (ht : ∀ (r : Reader) n, r.feed n t = r.continueWith n (r.group.applySign c f)) :
    Layer.repetition.TakesIn (ps ++ qs) (f e) := by
  intro g outer
  obtain ⟨⟨n, t⟩, rfl, rfl⟩ := List.map_eq_singleton_iff.1 hqs
  refine Reader.feedAll_concat (h g outer) ?_
  rw [ht, Group.applySign_operand]
  rfl

/-- **The tokens of a phrase are taken in** by every reader in whose situation it can begin. -/
theorem Phrase.takesIn {layer : Layer} {ts : List Token} {e : Regex} (h : Phrase layer ts e) :
    ∀ ps : List (Nat × Token), ps.map Prod.snd = ts → layer.TakesIn ps e := by
  induction h with
  | symbol c =>
    intro ps hps g outer
    obtain ⟨⟨n, t⟩, rfl, rfl⟩ := List.map_eq_singleton_iff.1 hps
    rfl
  | epsilon =>
    intro ps hps g outer
    obtain ⟨⟨n, t⟩, rfl, rfl⟩ := List.map_eq_singleton_iff.1 hps
    rfl
  | emptyGroup =>
    intro ps hps g outer
    obtain ⟨⟨n, t⟩, qs, rfl, rfl, hqs⟩ := List.map_eq_cons_iff.1 hps
    obtain ⟨⟨m, t⟩, rfl, rfl⟩ := List.map_eq_singleton_iff.1 hqs
    rfl
  | group _ ih =>
    intro ps hps g outer
    obtain ⟨_, ks, rfl, hqs, hks⟩ := List.map_eq_append_iff.1 hps
    obtain ⟨⟨n, t⟩, qs, rfl, rfl, hin⟩ := List.map_eq_cons_iff.1 hqs
    obtain ⟨⟨m, t⟩, rfl, rfl⟩ := List.map_eq_singleton_iff.1 hks
    obtain ⟨alternatives, factors, last, hin, rfl⟩ := ih qs hin ((n, g) :: outer)
    have hopened : Reader.feedAll ⟨g, outer⟩ ((n, .opening) :: qs) = _ := hin
    exact Reader.feedAll_concat hopened rfl
  | operand _ ih => exact ih
  | star _ ih =>
    intro ps hps
    obtain ⟨qs, ks, rfl, hqs, hks⟩ := List.map_eq_append_iff.1 hps
    exact (ih qs hqs).sign hks fun r n => rfl
  | optional _ ih =>
    intro ps hps
    obtain ⟨qs, ks, rfl, hqs, hks⟩ := List.map_eq_append_iff.1 hps
    exact (ih qs hqs).sign (f := fun x => .union x .epsilon) hks fun r n => rfl
  | repeated _ ih =>
    intro ps hps
    obtain ⟨qs, ks, rfl, hqs, hks⟩ := List.map_eq_append_iff.1 hps
    exact (ih qs hqs).sign (f := fun x => .concat x (.star x)) hks fun r n => rfl
  | repetition _ ih =>
    intro ps hps g outer alternatives hg
    refine ⟨none, _, ?_, rfl⟩
    rw [ih ps hps g outer, hg]
  | concat _ _ ihl ihr =>
    intro ps hps g outer alternatives hg
    obtain ⟨qs, ks, rfl, hqs, hks⟩ := List.map_eq_append_iff.1 hps
    obtain ⟨factors, last, hin, rfl⟩ := ihl qs hqs g outer alternatives hg
    refine ⟨some (Group.joinConcat factors last), _, ?_, rfl⟩
    rw [Reader.feedAll_append hin, ihr ks hks]
    rfl
  | sequence _ ih =>
    intro ps hps outer
    obtain ⟨factors, last, hin, rfl⟩ := ih ps hps .fresh outer none fun x => rfl
    exact ⟨none, factors, last, hin, rfl⟩
  | union sign _ _ ihl ihr =>
    intro ps hps outer
    obtain ⟨qs, _, rfl, hqs, hrest⟩ := List.map_eq_append_iff.1 hps
    obtain ⟨⟨n, t⟩, ks, rfl, rfl, hks⟩ := List.map_eq_cons_iff.1 hrest
    obtain ⟨alternatives, factors, last, hin, rfl⟩ := ihl qs hqs outer
    -- the sign puts the alternatives so far in front of the next one
    obtain ⟨factors', last', hin', rfl⟩ := ihr ks hks (.awaiting _ sign) outer (some _) fun x => rfl
    refine ⟨some _, factors', last', ?_, rfl⟩
    rw [Reader.feedAll_append hin]
    exact hin'

/-! ### Whole patterns -/

variable {pattern : List Char} {r : Regex}

/-- **What is read** is what the tokens of the pattern stand for. -/
theorem isPattern_of_read (h : read pattern = .ok r) :
    IsPattern ((Token.scan pattern).map Prod.snd) r := by
  unfold read at h
  split at h
  · next s hs => exact ((Reader.Holds.outermost .fresh).feedAll hs).isPattern h
  · cases h

/-- **What the tokens of a pattern stand for** is read. -/
theorem read_of_isPattern (h : IsPattern ((Token.scan pattern).map Prod.snd) r) :
    read pattern = .ok r := by
  unfold read
  generalize htokens : (Token.scan pattern).map Prod.snd = ts at h
  cases h with
  | empty =>
    rw [List.map_eq_nil_iff.1 htokens]
    rfl
  | choice h =>
    obtain ⟨alternatives, factors, last, hin, rfl⟩ := h.takesIn _ htokens []
    have hread : Reader.initial.feedAll (Token.scan pattern) = _ := hin
    rw [hread]
    rfl

/-- A pattern is read as the expression that it stands for. -/
theorem read_eq_ok_iff : read pattern = .ok r ↔ Denotes pattern r := by
  have htokens : Denotes pattern r ↔ IsPattern ((Token.scan pattern).map Prod.snd) r := by
    simp only [Denotes, Token.reads_iff, Token.map_snd_scan, exists_eq_left]
  rw [htokens]
  exact ⟨isPattern_of_read, read_of_isPattern⟩

/-- Parsing gives the expression that reading gives. -/
theorem parse_eq_ok_iff {p : String} : parse p = .ok r ↔ read p.toList = .ok r := by
  unfold parse
  cases read p.toList with
  | ok s =>
    constructor <;> intro h <;> cases h <;> rfl
  | error fault =>
    constructor <;> intro h <;> cases h

/-- **Reading accepts exactly the grammar of patterns**, and gives the expression that the grammar
gives; every other pattern is refused. -/
theorem parse_decides_denotes (p : String) :
    (∀ r, parse p = .ok r ↔ Denotes p.toList r) ∧
      ((∃ e, parse p = .error e) ↔ ∀ r, ¬ Denotes p.toList r) := by
  have hok : ∀ r, parse p = .ok r ↔ Denotes p.toList r := fun r =>
    parse_eq_ok_iff.trans read_eq_ok_iff
  refine ⟨hok, ?_⟩
  cases h : parse p with
  | ok s =>
    have hs : Denotes p.toList s := (hok s).1 h
    refine ⟨?_, fun hnone => absurd hs (hnone s)⟩
    rintro ⟨e, he⟩
    cases he
  | error e =>
    refine ⟨fun _ r hr => ?_, fun _ => ⟨e, rfl⟩⟩
    rw [(hok r).2 hr] at h
    cases h

end Regex
end LanguageForms
