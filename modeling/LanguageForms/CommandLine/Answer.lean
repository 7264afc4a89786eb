/-
# What the command line answers

A request is answered by an output and the status `0`, or by an error and the
status `1`; refused arguments have the status `2`.  A conversion is answered by
its trace, unless that is left out, and by its result.
-/
import LanguageForms.Catalogue
import LanguageForms.CommandLine.Arguments
import LanguageForms.CommandLine.Diagnostic

namespace LanguageForms
namespace CommandLine

/-- The output, the error if there is one, and the status. -/
structure Answer where
  output : String
  error : Option String
  status : Nat
deriving DecidableEq

/-- A text between two control sequences of a terminal. -/
def styled (on off text : String) : String := "\x1b[" ++ on ++ "m" ++ text ++ "\x1b[" ++ off ++ "m"

/-- A bold text. -/
def bold (text : String) : String := styled "1" "0" text

/-- A green text. -/
def green (text : String) : String := styled "32" "39" text

/-- A cyan text. -/
def cyan (text : String) : String := styled "36" "39" text

/-- The steps from a given number on. -/
def stepsFrom (i : Nat) : List Trace.Entry → List String
  | [] => []
  | e :: es =>
    (bold ("Step " ++ i.repr ++ ":") ++ " " ++ cyan e.label ++ "\n    " ++ e.explanation ++ "\n") ::
      stepsFrom (i + 1) es

/-- The output for a conversion that ran. -/
def reportText (quiet : Bool) (r : Conversion.Report) : String :=
  (if quiet then "" else Text.joined (stepsFrom 0 r.trace.entries) ++ "\n") ++
    bold (green "Result") ++ "\n" ++ r.result.text ++ "\n"

/-- The lines for the examples of a kind. -/
def kindText (k : Conversion.Kind) : String :=
  bold k.name ++ "\n" ++ Text.joined ((Catalogue.examples k).map fun e =>
    "  " ++ cyan e.name ++ ": " ++ e.description ++ "\n")

/-- A kind by its name, or the quoted complaint that there is none. -/
def kindNamed (name : String) : Except String Conversion.Kind :=
  match Conversion.Kind.ofName? name with
  | some k => .ok k
  | none => .error (Text.quoted (Conversion.Kind.unknownName name))

/-- The output for a conversion, or its rejection. -/
def runConversion (quiet : Bool) (c : Conversion) : Except String String :=
  match c.run with
  | .ok r => .ok (reportText quiet r)
  | .error e => .error (rejection e)

/-- The output for a request, or its error. -/
def respond (r : Request) : Except String String :=
  match r.command with
  | .list none => .ok (Text.joined (Conversion.Kind.all.map kindText))
  | .list (some name) => (kindNamed name).map kindText
  | .runExample kind name =>
    match kindNamed kind with
    | .error e => .error e
    | .ok k =>
      match Catalogue.find? k name with
      | some e => runConversion r.quiet e.input
      | none =>
        .error (Text.quoted ("there is no " ++ k.name ++ " example called `" ++ name ++ "`"))
  | .regex deterministic pattern =>
    runConversion r.quiet (if deterministic then .regexToDfa pattern else .regexToNfa pattern)
  | .grammar rules =>
    match Grammar.read rules with
    | .ok g => runConversion r.quiet (.grammarToPushdown g)
    | .error d => .error (rejection (.malformedGrammar d))

/-- The answer to some arguments. -/
def answer (args : List String) : Answer :=
  match read args with
  | .error .help => ⟨"", none, 0⟩
  | .error .usage => ⟨"", none, 2⟩
  | .ok r =>
    match respond r with
    | .ok output => ⟨output, none, 0⟩
    | .error e => ⟨"", some ("Error: " ++ e), 1⟩

end CommandLine
end LanguageForms
