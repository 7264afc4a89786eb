/-
# Conversions between the forms of a language

A conversion is an input of one form and the form that is wanted.  Running it
gives the result and the trace that leads to it, or says why the input was
rejected; a rejected input leaves no trace.
-/
import LanguageForms.Automaton.Fragment
import LanguageForms.Automaton.Subset
import LanguageForms.Automaton.Widening
import LanguageForms.Generalized.Elimination
import LanguageForms.Pushdown.OfGrammar
import LanguageForms.Regex.Parser

namespace LanguageForms

/-- Why an input is rejected. -/
inductive Conversion.Error where
  | malformedAutomaton (d : Automaton.Defect)
  | regexSyntax (e : Regex.SyntaxError)
  | malformedGrammar (d : Grammar.Defect)
deriving DecidableEq

/-- The wording of a rejection. -/
def Conversion.Error.message : Conversion.Error → String
  | malformedAutomaton d => "malformed automaton: " ++ d.message
  | regexSyntax e => e.message
  | malformedGrammar d => "malformed grammar: " ++ d.message

/-- The kinds of conversions. -/
inductive Conversion.Kind where
  | nfaToDfa
  | dfaToNfa
  | regexToNfa
  | regexToDfa
  | nfaToRegex
  | dfaToRegex
  | grammarToPushdown
deriving DecidableEq

namespace Conversion.Kind

/-- All kinds. -/
def all : List Kind :=
  [nfaToDfa, dfaToNfa, regexToNfa, regexToDfa, nfaToRegex, dfaToRegex, grammarToPushdown]

/-- The short name of a kind. -/
def name : Kind → String
  | nfaToDfa => "nfa-dfa"
  | dfaToNfa => "dfa-nfa"
  | regexToNfa => "re-nfa"
  | regexToDfa => "re-dfa"
  | nfaToRegex => "nfa-re"
  | dfaToRegex => "dfa-re"
  | grammarToPushdown => "cfg-pda"

/-- The kind with a given name. -/
def ofName? (name : String) : Option Kind := all.find? fun k => decide (k.name = name)

/-- What is said about a name that no kind has. -/
def unknownName (name : String) : String := "unknown conversion kind `" ++ name ++ "`"

/-- No kind of conversion is missing from the list. -/
theorem mem_all (k : Kind) : k ∈ all := by cases k <;> decide

/-- Every kind is found by its name. -/
theorem ofName?_name (k : Kind) : ofName? k.name = some k := by cases k <;> rfl

end Conversion.Kind

/-- An input and the form that is wanted. -/
inductive Conversion where
  | nfaToDfa (nfa : Automaton)
  | dfaToNfa (dfa : Automaton)
  | regexToNfa (pattern : String)
  | regexToDfa (pattern : String)
  | nfaToRegex (nfa : Automaton)
  | dfaToRegex (dfa : Automaton)
  | grammarToPushdown (grammar : Grammar)
deriving DecidableEq

namespace Conversion

/-- What a conversion results in; no expression stands for the empty language. -/
inductive Result where
  | automaton (a : Automaton)
  | regex (r : Option Regex)
  | pushdown (p : Pushdown)
deriving DecidableEq

/-- The text of an expression, `∅` for the empty language. -/
def outcomeText : Option Regex → String
  | some r => r.text
  | none => "∅"

/-- The text of a result. -/
def Result.text : Result → String
  | automaton a => a.text
  | regex r => outcomeText r
  | pushdown p => p.text

/-- A result and the trace that leads to it. -/
structure Report where
  result : Result
  trace : Trace
deriving DecidableEq

/-- The kind of a conversion. -/
def kind : Conversion → Kind
  | nfaToDfa _ => .nfaToDfa
  | dfaToNfa _ => .dfaToNfa
  | regexToNfa _ => .regexToNfa
  | regexToDfa _ => .regexToDfa
  | nfaToRegex _ => .nfaToRegex
  | dfaToRegex _ => .dfaToRegex
  | grammarToPushdown _ => .grammarToPushdown

/-- The label between the two halves of a trace from an expression to a deterministic
automaton. -/
def delimiterLabel : String := "--- Converting NFA to DFA ---"

/-- The explanation of the delimiter. -/
def delimiterStory : String := "Now we convert the intermediate NFA to DFA."

/-- A report, or the rejection of an automaton. -/
def ofAutomaton {α : Type} (f : α → Result) : Except Automaton.Defect (α × Trace) →
    Except Error Report
  | .ok (a, trace) => .ok ⟨f a, trace⟩
  | .error d => .error (.malformedAutomaton d)

/-- Reads a pattern and goes on with its expression. -/
def withPattern (pattern : String) (next : Regex → Except Error Report) : Except Error Report :=
  match Regex.parse pattern with
  | .ok r => next r
  | .error e => .error (.regexSyntax e)

/-- The deterministic automaton of an expression, by way of the nondeterministic one. -/
def regexToDeterministic (r : Regex) : Except Error Report :=
  let first := r.toAutomaton
  match first.1.determinise with
  | .ok (d, second) => .ok ⟨.automaton d, first.2.andThen delimiterLabel delimiterStory second⟩
  | .error d => .error (.malformedAutomaton d)

/-- Runs a conversion. -/
def run : Conversion → Except Error Report
  | nfaToDfa nfa => ofAutomaton .automaton nfa.determinise
  | dfaToNfa dfa => ofAutomaton .automaton dfa.widen
  | regexToNfa pattern =>
    withPattern pattern fun r =>
      let built := r.toAutomaton
      .ok ⟨.automaton built.1, built.2⟩
  | regexToDfa pattern => withPattern pattern regexToDeterministic
  | nfaToRegex nfa => ofAutomaton .regex nfa.toRegex
  | dfaToRegex dfa =>
    match dfa.deterministicDefect? with
    | some d => .error (.malformedAutomaton d)
    | none => ofAutomaton .regex dfa.toRegex
  | grammarToPushdown grammar =>
    match grammar.toPushdown with
    | .ok (p, trace) => .ok ⟨.pushdown p, trace⟩
    | .error d => .error (.malformedGrammar d)

end Conversion

end LanguageForms
