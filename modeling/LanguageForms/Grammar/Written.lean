/-
# Grammars with either arrow

A rule may be written with either arrow, and two rules may be separated by the end of
the line or by a semicolon (`Grammar.Line`, `Grammar.written`).  The arrows stand for
the same, so lines with the same heads and bodies (`Grammar.HaveSameRules`) should be
read alike (`Grammar.Agree`).
-/
import LanguageForms.Grammar.Text

namespace LanguageForms
namespace Grammar

/-- The sorts of defects. -/
inductive Defect.Kind where
  | noProductions
  | unknownStart
  | unknownHead
  | unknownSymbol
  | overlapping
  | reserved
  | unreadableRule
deriving DecidableEq

/-- The sort of a defect, whatever it is about. -/
def Defect.kind : Defect → Defect.Kind
  | noProductions => .noProductions
  | unknownStart _ => .unknownStart
  | unknownHead _ => .unknownHead
  | unknownSymbol _ _ => .unknownSymbol
  | overlapping _ => .overlapping
  | reserved _ => .reserved
  | unreadableRule _ => .unreadableRule

/-- The two arrows. -/
inductive Arrow where
  | plain
  | sign
deriving DecidableEq

/-- An arrow as it is written. -/
def Arrow.chars : Arrow → List Char
  | plain => plainArrow
  | sign => signArrow

/-- Whether a character ends a rule. -/
def isStop (c : Char) : Bool := c == '\n' || c == ';'

/-- A rule with its arrow, and what separates it from a next one. -/
structure Line where
  head : Char
  arrow : Arrow
  body : List Char
  stop : Char
  isUppercase_head : isUppercase head = true
  isStop_body : ∀ c ∈ body, isStop c = false
  isStop_stop : isStop stop = true

namespace Line

/-- A line as it is written. -/
def chars (l : Line) : List Char := l.head :: ' ' :: (l.arrow.chars ++ ' ' :: l.body)

/-- What a line says. -/
def rule (l : Line) : Char × List Char := (l.head, l.body)

/-- The productions of a line: one for each alternative of its body. -/
def productions (l : Line) : List Production :=
  (Text.splitWhere (· == '|') l.body).map fun body => ⟨l.head, readBody body⟩

/-- The arrow is written with one character, and the one of two characters stands in the body. -/
def HidesArrow (l : Line) : Prop := l.arrow = .sign ∧ plainArrow <:+: l.body

instance (l : Line) : Decidable l.HidesArrow :=
  inferInstanceAs (Decidable (l.arrow = .sign ∧ plainArrow <:+: l.body))

end Line

/-- Lines one behind the other, separated as they say. -/
def written : List Line → List Char
  | [] => []
  | [l] => l.chars
  | l :: m :: ls => l.chars ++ l.stop :: written (m :: ls)

/-- The lines say the same, with whatever arrows and separators. -/
def HaveSameRules (ls ms : List Line) : Prop := ls.map Line.rule = ms.map Line.rule

instance (ls ms : List Line) : Decidable (HaveSameRules ls ms) :=
  inferInstanceAs (Decidable (_ = _))

/-- The same grammar was read, or the same sort of defect found. -/
def Agree : Except Defect Grammar → Except Defect Grammar → Prop
  | .ok g, .ok k => g = k
  | .error d, .error e => d.kind = e.kind
  | _, _ => False

end Grammar
end LanguageForms
