/-
# Inputs that are handed out

The input of a conversion is `Obtained` if the operations of this library hand it
out: an automaton by some chain of operations, a grammar by its parts or by its
text.  A pattern may be any text.
-/
import LanguageForms.Automaton.Obtained
import LanguageForms.Conversion

namespace LanguageForms

/-- The grammar is made of parts or read from a text. -/
inductive Grammar.Obtained : Grammar → Prop where
  | ofParts {nonterminals terminals : List Char} {productions : List Production} {start : Char}
      {g : Grammar} :
      Grammar.ofParts nonterminals terminals productions start = .ok g → Obtained g
  | read {text : String} {g : Grammar} : Grammar.read text = .ok g → Obtained g

/-- The automaton or the grammar of the conversion is handed out by some operation. -/
def Conversion.InputObtained : Conversion → Prop
  | .nfaToDfa a => a.Obtained
  | .dfaToNfa a => a.Obtained
  | .regexToNfa _ => True
  | .regexToDfa _ => True
  | .nfaToRegex a => a.Obtained
  | .dfaToRegex a => a.Obtained
  | .grammarToPushdown g => g.Obtained

end LanguageForms
