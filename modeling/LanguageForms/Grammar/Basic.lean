/-
# Context-free grammars

A grammar has nonterminals and terminals in the order of their declaration,
productions in order, and a start symbol.  `$` is kept for the bottom of stacks,
so it cannot be a symbol of a grammar.

`Grammar.defect?` finds the first thing that is wrong with a grammar, and
nothing exactly for a well-formed one (`Grammar.defect?_eq_none_iff`).
-/
import LanguageForms.DistinctList
import LanguageForms.Text.Collection

namespace LanguageForms

/-- A nonterminal and the symbols that may replace it. -/
structure Production where
  head : Char
  body : List Char
deriving DecidableEq

namespace Production

/-- Whether the head may be replaced by nothing. -/
def isEpsilon (p : Production) : Bool := p.body.isEmpty

/-- The text of the body, `ε` if it is empty. -/
def bodyText (p : Production) : String := Text.symbolsOrEmpty p.body

/-- The text of a production. -/
def text (p : Production) : String := Text.symbol p.head ++ " → " ++ p.bodyText

end Production

/-- A context-free grammar. -/
structure Grammar where
  nonterminals : DistinctList Char
  terminals : DistinctList Char
  productions : List Production
  start : Char
deriving DecidableEq

namespace Grammar

/-- The symbol at the bottom of stacks. -/
def endMarker : Char := '$'

/-- Something wrong with a grammar or its text. -/
inductive Defect where
  /-- There are no productions. -/
  | noProductions
  /-- The start symbol is no nonterminal. -/
  | unknownStart (c : Char)
  /-- The head of a production is no nonterminal. -/
  | unknownHead (c : Char)
  /-- A body has a symbol that is neither a terminal nor a nonterminal. -/
  | unknownSymbol (head symbol : Char)
  /-- A symbol is a terminal and a nonterminal. -/
  | overlapping (c : Char)
  /-- A symbol is kept for the bottom of stacks. -/
  | reserved (c : Char)
  /-- A rule cannot be read. -/
  | unreadableRule (rule : List Char)
deriving DecidableEq

namespace Defect

/-- The wording of a defect. -/
def message : Defect → String
  | noProductions => "grammar has no productions"
  | unknownStart c => "start symbol `" ++ Text.symbol c ++ "` is not a declared nonterminal"
  | unknownHead c => "production head `" ++ Text.symbol c ++ "` is not a declared nonterminal"
  | unknownSymbol head c =>
    "production for `" ++ Text.symbol head ++ "` uses undeclared symbol `" ++ Text.symbol c ++ "`"
  | overlapping c => "`" ++ Text.symbol c ++ "` is declared as terminal and as nonterminal"
  | reserved c => "`" ++ Text.symbol c ++ "` is reserved as the stack bottom marker"
  | unreadableRule rule =>
    "cannot read rule `" ++ String.ofList rule ++ "`, expected `A -> body | body`"

end Defect

/-- Whether a symbol is a nonterminal. -/
def isNonterminal (g : Grammar) (c : Char) : Bool := decide (c ∈ g.nonterminals)

/-- Whether a symbol is declared at all. -/
def isDeclared (g : Grammar) (c : Char) : Bool :=
  decide (c ∈ g.nonterminals) || decide (c ∈ g.terminals)

/-- The productions with a given head, in order. -/
def productionsOf (g : Grammar) (head : Char) : List Production :=
  g.productions.filter fun p => decide (p.head = head)

/-- The parts of the grammar fit together. -/
structure WellFormed (g : Grammar) : Prop where
  productions : g.productions ≠ []
  nonterminals : ¬ endMarker ∈ g.nonterminals
  terminals : ¬ endMarker ∈ g.terminals
  disjoint : ∀ c ∈ g.nonterminals, ¬ c ∈ g.terminals
  start : g.start ∈ g.nonterminals
  head : ∀ p ∈ g.productions, p.head ∈ g.nonterminals
  body : ∀ p ∈ g.productions, ∀ c ∈ p.body, c ∈ g.nonterminals ∨ c ∈ g.terminals

/-- Whether two grammars have the same productions in the same order, the same start and the
same symbols of either sort; the order of the symbols does not matter. -/
def sameAs (g h : Grammar) : Bool :=
  g.nonterminals.sameMembers h.nonterminals && g.terminals.sameMembers h.terminals &&
    decide (g.productions = h.productions) && decide (g.start = h.start)

/-- What is wrong with a production of the grammar. -/
def productionDefect? (g : Grammar) (p : Production) : Option Defect :=
  if ¬ p.head ∈ g.nonterminals then some (.unknownHead p.head)
  else (p.body.find? fun c => !g.isDeclared c).map (.unknownSymbol p.head)

/-- The first thing that is wrong: missing productions, the reserved symbol, a symbol of both
sorts, the start symbol, then the productions. -/
def defect? (g : Grammar) : Option Defect :=
  if g.productions = [] then some .noProductions
  else if endMarker ∈ g.nonterminals.toList ++ g.terminals.toList then some (.reserved endMarker)
  else ((g.nonterminals.toList.find? fun c => decide (c ∈ g.terminals)).map .overlapping).or
    (if ¬ g.start ∈ g.nonterminals then some (.unknownStart g.start)
    else g.productions.findSome? g.productionDefect?)

/-- No defect of a production means that its head is a nonterminal and its body is made of symbols
of the grammar. -/
theorem productionDefect?_eq_none_iff {g : Grammar} {p : Production} :
    g.productionDefect? p = none ↔ p.head ∈ g.nonterminals ∧
      ∀ c ∈ p.body, c ∈ g.nonterminals ∨ c ∈ g.terminals := by
  unfold productionDefect?
  by_cases hp : p.head ∈ g.nonterminals
  · simp only [hp, not_true, if_false, true_and, Option.map_eq_none_iff, List.find?_eq_none,
      isDeclared, Bool.not_eq_true', Bool.or_eq_false_iff, decide_eq_false_iff_not]
    exact ⟨fun h c hc => Decidable.or_iff_not_not_and_not.2 (h c hc),
      fun h c hc => Decidable.or_iff_not_not_and_not.1 (h c hc)⟩
  · simp only [hp, not_false_eq_true, if_true, reduceCtorEq, false_and]

/-- Nothing is found exactly when everything fits. -/
theorem defect?_eq_none_iff {g : Grammar} : g.defect? = none ↔ g.WellFormed := by
  unfold defect?
  constructor
  · intro h
    split at h
    · cases h
    · next hp =>
      split at h
      · cases h
      · next hr =>
        rw [Option.or_eq_none_iff, Option.map_eq_none_iff, List.find?_eq_none] at h
        obtain ⟨ho, h⟩ := h
        split at h
        · cases h
        · next hs =>
          rw [List.findSome?_eq_none_iff] at h
          have hq := fun p hm => productionDefect?_eq_none_iff.1 (h p hm)
          rw [List.mem_append, not_or] at hr
          exact ⟨hp, hr.1, hr.2, fun c hc ht => ho c hc (decide_eq_true ht),
            Decidable.of_not_not hs, fun p hm => (hq p hm).1, fun p hm => (hq p hm).2⟩
  · intro h
    have hr : ¬ endMarker ∈ g.nonterminals.toList ++ g.terminals.toList := fun hm =>
      (List.mem_append.1 hm).elim h.nonterminals h.terminals
    rw [if_neg h.productions, if_neg hr, Option.or_eq_none_iff, Option.map_eq_none_iff,
      List.find?_eq_none]
    refine ⟨fun c hc ht => h.disjoint c hc (of_decide_eq_true ht), ?_⟩
    rw [if_neg (fun hn => hn h.start), List.findSome?_eq_none_iff]
    exact fun p hm => productionDefect?_eq_none_iff.2 ⟨h.head p hm, h.body p hm⟩

/-- The grammar of some parts, if they fit together. -/
def ofParts (nonterminals terminals : List Char) (productions : List Production) (start : Char) :
    Except Defect Grammar :=
  let g : Grammar := ⟨.ofList nonterminals, .ofList terminals, productions, start⟩
  match g.defect? with
  | none => .ok g
  | some d => .error d

end Grammar

end LanguageForms
