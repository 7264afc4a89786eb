/-
# How rejections are reported

The command line reports a rejected input by the constructor of the rejection and
its arguments, and anything else as a quoted text.
-/
import LanguageForms.Conversion
import LanguageForms.Text.Quoted

namespace LanguageForms
namespace CommandLine

/-- A constructor with its arguments in parentheses. -/
def applied (name : String) (arguments : List String) : String :=
  name ++ "(" ++ Text.separated ", " arguments ++ ")"

/-- A constructor with its named fields in braces. -/
def fields (name : String) (values : List (String × String)) : String :=
  name ++ " \x7b " ++ Text.separated ", " (values.map fun v => v.1 ++ ": " ++ v.2) ++ " \x7d"

/-- A state by its quoted name. -/
def stateText (q : State) : String := applied "State" [Text.quoted q.name]

/-- A defect of an automaton. -/
def automatonDefect : Automaton.Defect → String
  | .unknownStart q => applied "UnknownStart" [stateText q]
  | .unknownAccepting q => applied "UnknownAccepting" [stateText q]
  | .unknownSource q => applied "UnknownSource" [stateText q]
  | .unknownTarget p q => fields "UnknownTarget" [("from", stateText p), ("to", stateText q)]
  | .unknownSymbol p c =>
    fields "UnknownSymbol" [("from", stateText p), ("symbol", Text.quotedChar c)]
  | .ambiguous q c n =>
    fields "Nondeterministic"
      [("state", stateText q), ("symbol", Text.quotedChar c), ("count", n.repr)]
  | .epsilonFrom q => applied "EpsilonInDfa" [stateText q]

/-- What is wrong with a pattern. -/
def issue : Regex.Issue → String
  | .missingOperand c => applied "MissingOperand" [Text.quotedChar c]
  | .unbalanced => "UnbalancedParenthesis"
  | .unclosed => "UnclosedParenthesis"

/-- A defect of a grammar. -/
def grammarDefect : Grammar.Defect → String
  | .noProductions => "NoProductions"
  | .unknownStart c => applied "UnknownStart" [Text.quotedChar c]
  | .unknownHead c => applied "UnknownHead" [Text.quotedChar c]
  | .unknownSymbol head c =>
    fields "UnknownSymbol" [("head", Text.quotedChar head), ("symbol", Text.quotedChar c)]
  | .overlapping c => applied "Overlapping" [Text.quotedChar c]
  | .reserved c => applied "Reserved" [Text.quotedChar c]
  | .unreadableRule rule => applied "UnreadableRule" [Text.quoted (String.ofList rule)]

/-- A rejected input. -/
def rejection : Conversion.Error → String
  | .malformedAutomaton d => applied "MalformedAutomaton" [automatonDefect d]
  | .regexSyntax e =>
    applied "RegexSyntax" [fields "RegexSyntaxError"
      [("position", e.position.repr), ("fragment", Text.quoted (String.ofList e.fragment)),
        ("issue", issue e.issue)]]
  | .malformedGrammar d => applied "MalformedGrammar" [grammarDefect d]

end CommandLine
end LanguageForms
