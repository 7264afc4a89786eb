/-
# Grammars as text

A grammar is written with one rule for a head, the alternatives separated by `|`.
It is read from rules `A -> body | body` between newlines or semicolons; `→` may
stand for the arrow.  Uppercase letters of the basic alphabet are nonterminals,
all other symbols are terminals, and the head of the first rule is the start.
Blanks and `ε` in a body stand for nothing.
-/
import LanguageForms.Grammar.Basic
import LanguageForms.Text.Split

namespace LanguageForms
namespace Grammar

/-- The heads of the productions, each once. -/
def heads (g : Grammar) : List Char := (DistinctList.ofList (g.productions.map (·.head))).toList

/-- The rule for one head. -/
def ruleText (g : Grammar) (head : Char) : String :=
  Text.symbol head ++ " → " ++
    Text.separated " | " ((g.productionsOf head).map Production.bodyText)

/-- The text of a grammar. -/
def text (g : Grammar) : String := Text.separated "\n" (g.heads.map g.ruleText)

/-- The arrow between head and bodies, as two characters. -/
def plainArrow : List Char := ['-', '>']

/-- The arrow between head and bodies, as one character. -/
def signArrow : List Char := ['→']

/-- Cuts a rule at its arrow; the arrow of two characters goes first. -/
def cutArrow? (rule : List Char) : Option (List Char × List Char) :=
  (Text.cut? plainArrow rule).or (Text.cut? signArrow rule)

/-- The symbols of a body. -/
def readBody (body : List Char) : List Char :=
  body.filter fun c => !Text.isBlank c && !(c == 'ε')

/-- The productions of a rule without blanks at its ends. -/
def readRule (rule : List Char) : Except Defect (List Production) :=
  match cutArrow? rule with
  | none => .error (.unreadableRule rule)
  | some (head, bodies) =>
    match Text.trim head with
    | [c] => .ok ((Text.splitWhere (· == '|') bodies).map fun body => ⟨c, readBody body⟩)
    | _ => .error (.unreadableRule rule)

/-- The productions of all rules, or the first rule that cannot be read. -/
def readRules : List (List Char) → Except Defect (List Production)
  | [] => .ok []
  | rule :: rules =>
    match readRule rule with
    | .error d => .error d
    | .ok ps =>
      match readRules rules with
      | .error d => .error d
      | .ok qs => .ok (ps ++ qs)

/-- The rules of a text, trimmed, without the empty ones. -/
def rulesOf (cs : List Char) : List (List Char) :=
  ((Text.splitWhere (fun c => c == '\n' || c == ';') cs).map Text.trim).filter fun r => !r.isEmpty

/-- Whether a symbol that is read is a nonterminal. -/
def isUppercase (c : Char) : Bool := 'A'.toNat ≤ c.toNat && c.toNat ≤ 'Z'.toNat

/-- The symbols of some productions, each at its first occurrence. -/
def symbolsOf (ps : List Production) : List Char :=
  (DistinctList.ofList (ps.flatMap fun p => p.head :: p.body)).toList

/-- The grammar of productions whose symbols are sorted by their case. -/
def ofProductions : List Production → Except Defect Grammar
  | [] => .error .noProductions
  | p :: ps =>
    let symbols := symbolsOf (p :: ps)
    ofParts (symbols.filter isUppercase) (symbols.filter fun c => !isUppercase c) (p :: ps) p.head

/-- The grammar of a text given by its characters. -/
def readChars (cs : List Char) : Except Defect Grammar :=
  match readRules (rulesOf cs) with
  | .error d => .error d
  | .ok ps => ofProductions ps

/-- The grammar of a text, or what is wrong with it. -/
def read (text : String) : Except Defect Grammar := readChars text.toList

end Grammar
end LanguageForms
