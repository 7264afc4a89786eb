/-
# The grammar of patterns

Four layers of phrases make up a pattern, each taking in the one before it:

| layer | tokens |
| --- | --- |
| operand | a symbol, `ε`, `()`, or a choice in brackets |
| repetition | an operand and the signs that follow it |
| sequence | repetitions one after the other |
| choice | sequences with signs between alternatives |

`Regex.Phrase` says which tokens are a phrase of a layer and what expression they
stand for; sequences and choices associate to the left.  `Regex.IsPattern` adds
the pattern without tokens, which stands for the empty word.

The tokens are those of the characters that are no blanks (`Token.Reads`), and
`Regex.Denotes` says what expression the pattern as a whole stands for.
-/
import LanguageForms.Regex.Basic
import LanguageForms.Regex.Token

namespace LanguageForms
namespace Regex

/-- The characters are read as the tokens.  A `+` stands between alternatives if an operand can
begin with the next character, and for "one or more" otherwise. -/
inductive Token.Reads : List Char → List Token → Prop where
  | nil : Token.Reads [] []
  | opening {cs : List Char} {ts : List Token} :
      Token.Reads cs ts → Token.Reads ('(' :: cs) (.opening :: ts)
  | closing {cs : List Char} {ts : List Token} :
      Token.Reads cs ts → Token.Reads (')' :: cs) (.closing :: ts)
  | bar {cs : List Char} {ts : List Token} :
      Token.Reads cs ts → Token.Reads ('|' :: cs) (.either '|' :: ts)
  | star {cs : List Char} {ts : List Token} :
      Token.Reads cs ts → Token.Reads ('*' :: cs) (.star :: ts)
  | optional {cs : List Char} {ts : List Token} :
      Token.Reads cs ts → Token.Reads ('?' :: cs) (.optional :: ts)
  | plus {cs : List Char} {ts : List Token} :
      (∃ c ∈ cs.head?, startsOperand c = true) → Token.Reads cs ts →
      Token.Reads ('+' :: cs) (.either '+' :: ts)
  | repeated {cs : List Char} {ts : List Token} :
      (∀ c ∈ cs.head?, startsOperand c = false) → Token.Reads cs ts →
      Token.Reads ('+' :: cs) (.repeated :: ts)
  | epsilon {cs : List Char} {ts : List Token} :
      Token.Reads cs ts → Token.Reads ('ε' :: cs) (.epsilon :: ts)
  | symbol {c : Char} {cs : List Char} {ts : List Token} :
      isOperator c = false → c ≠ 'ε' → Token.Reads cs ts → Token.Reads (c :: cs) (.symbol c :: ts)

/-- The layers of the grammar, the one that binds strongest first. -/
inductive Layer where
  | operand
  | repetition
  | sequence
  | choice
deriving DecidableEq

/-- The tokens are a phrase of the layer and stand for the expression. -/
inductive Phrase : Layer → List Token → Regex → Prop where
  | symbol (c : Char) : Phrase .operand [.symbol c] (symbol c)
  | epsilon : Phrase .operand [.epsilon] epsilon
  | emptyGroup : Phrase .operand [.opening, .closing] epsilon
  | group {ts : List Token} {r : Regex} :
      Phrase .choice ts r → Phrase .operand (.opening :: ts ++ [.closing]) r
  | operand {ts : List Token} {r : Regex} : Phrase .operand ts r → Phrase .repetition ts r
  | star {ts : List Token} {r : Regex} :
      Phrase .repetition ts r → Phrase .repetition (ts ++ [.star]) (star r)
  | optional {ts : List Token} {r : Regex} :
      Phrase .repetition ts r → Phrase .repetition (ts ++ [.optional]) (union r epsilon)
  | repeated {ts : List Token} {r : Regex} :
      Phrase .repetition ts r → Phrase .repetition (ts ++ [.repeated]) (concat r (star r))
  | repetition {ts : List Token} {r : Regex} : Phrase .repetition ts r → Phrase .sequence ts r
  | concat {ts us : List Token} {l r : Regex} :
      Phrase .sequence ts l → Phrase .repetition us r → Phrase .sequence (ts ++ us) (concat l r)
  | sequence {ts : List Token} {r : Regex} : Phrase .sequence ts r → Phrase .choice ts r
  | union {ts us : List Token} {l r : Regex} (sign : Char) :
      Phrase .choice ts l → Phrase .sequence us r →
      Phrase .choice (ts ++ .either sign :: us) (union l r)

/-- The tokens are a whole pattern and stand for the expression. -/
inductive IsPattern : List Token → Regex → Prop where
  | empty : IsPattern [] epsilon
  | choice {ts : List Token} {r : Regex} : Phrase .choice ts r → IsPattern ts r

/-- The pattern stands for the expression. -/
def Denotes (pattern : List Char) (r : Regex) : Prop :=
  ∃ ts, Token.Reads (pattern.filter fun c => !Text.isBlank c) ts ∧ IsPattern ts r

end Regex
end LanguageForms
