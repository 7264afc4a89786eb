/-
# The arguments of the command line

There are four commands: `list [KIND]`, `example KIND NAME`, `regex KIND PATTERN`
and `grammar RULES`.  The options `-q`, `--quiet-trace` and `-v`, `--verbosity` may
stand before or after the command, each at most once on either side; a level of
verbosity is attached by `=`, and short options may share one dash.  After `--`
every argument is a value, and so is a single dash.

Arguments are read one after the other, and the first that does not fit refuses
them all.
-/
import LanguageForms.Conversion
import LanguageForms.Text.Split

namespace LanguageForms
namespace CommandLine

/-- What is to be done. -/
inductive Command where
  | list (kind : Option String)
  | runExample (kind name : String)
  | regex (deterministic : Bool) (pattern : String)
  | grammar (rules : String)
deriving DecidableEq

/-- A command, and whether its trace is left out. -/
structure Request where
  quiet : Bool
  command : Command
deriving DecidableEq

/-- Why there is no request. -/
inductive Refusal where
  /-- Help was asked for. -/
  | help
  /-- The arguments do not fit. -/
  | usage
deriving DecidableEq

/-- The options that have been given on one side of the command. -/
structure Options where
  verbosity : Bool
  quiet : Bool
deriving DecidableEq

namespace Options

/-- No options. -/
def none : Options := ⟨false, false⟩

/-- Gives a level of verbosity. -/
def setVerbosity (o : Options) : Except Refusal Options :=
  if o.verbosity then .error .usage else .ok { o with verbosity := true }

/-- Leaves out the trace. -/
def setQuiet (o : Options) : Except Refusal Options :=
  if o.quiet then .error .usage else .ok { o with quiet := true }

end Options

/-- The levels of verbosity. -/
def levels : List String := ["info", "debug", "trace"]

/-- Reads an option that may have a level. -/
def readLevel (o : Options) (level : Option (List Char)) : Except Refusal Options :=
  match level with
  | .none => o.setVerbosity
  | some cs => if levels.contains (String.ofList cs) then o.setVerbosity else .error .usage

/-- Reads short options that share a dash. -/
def readShort (o : Options) : List Char → Except Refusal Options
  | [] => .ok o
  | 'v' :: '=' :: level => readLevel o (some level)
  | 'v' :: rest =>
    match o.setVerbosity with
    | .ok o => readShort o rest
    | .error e => .error e
  | 'q' :: rest =>
    match o.setQuiet with
    | .ok o => readShort o rest
    | .error e => .error e
  | 'h' :: _ => .error .help
  | _ :: _ => .error .usage

/-- Reads the name of a long option and its value. -/
def readNamed (o : Options) (name : List Char) (value : Option (List Char)) :
    Except Refusal Options :=
  match String.ofList name, value with
  | "verbosity", level => readLevel o level
  | "quiet-trace", .none => o.setQuiet
  | "help", .none => .error .help
  | _, _ => .error .usage

/-- Reads a long option without its dashes. -/
def readLong (o : Options) (cs : List Char) : Except Refusal Options :=
  match Text.cut? ['='] cs with
  | some (name, value) => readNamed o name (some value)
  | .none => readNamed o cs .none

/-- What an argument is. -/
inductive Argument where
  | value (s : String)
  | short (cs : List Char)
  | long (cs : List Char)
  /-- Every argument after this one is a value. -/
  | valuesFollow
deriving DecidableEq

/-- What an argument is by its dashes. -/
def classify (s : String) : Argument :=
  match s.toList with
  | ['-', '-'] => .valuesFollow
  | '-' :: '-' :: cs => .long cs
  | '-' :: c :: cs => .short (c :: cs)
  | _ => .value s

/-- The names of the commands. -/
inductive Name where
  | list
  | runExample
  | regex
  | grammar
deriving DecidableEq

namespace Name

/-- The command with a given name. -/
def ofString? : String → Option Name
  | "list" => some list
  | "example" => some runExample
  | "regex" => some regex
  | "grammar" => some grammar
  | _ => none

/-- Whether a command takes one more value behind those that it has. -/
def takes : Name → List String → String → Bool
  | list, [], _ => true
  | runExample, [], _ => true
  | runExample, [_], _ => true
  | regex, [], kind => kind == "re-nfa" || kind == "re-dfa"
  | regex, [_], _ => true
  | grammar, [], _ => true
  | _, _, _ => false

/-- The command with its values, if none is missing. -/
def command? : Name → List String → Option Command
  | list, [] => some (.list none)
  | list, [kind] => some (.list (some kind))
  | runExample, [kind, name] => some (.runExample kind name)
  | regex, [kind, pattern] => some (.regex (kind == "re-dfa") pattern)
  | grammar, [rules] => some (.grammar rules)
  | _, _ => none

end Name

/-- Reads arguments that are values. -/
def readValues (name : Name) (values : List String) : List String → Except Refusal (List String)
  | [] => .ok values
  | s :: rest =>
    if name.takes values s then readValues name (values ++ [s]) rest else .error .usage

/-- Reads the arguments behind a command. -/
def readCommand (name : Name) (o : Options) (values : List String) :
    List String → Except Refusal (Options × List String)
  | [] => .ok (o, values)
  | s :: rest =>
    match classify s with
    | .value s =>
      if name.takes values s then readCommand name o (values ++ [s]) rest else .error .usage
    | .short cs =>
      match readShort o cs with
      | .ok o => readCommand name o values rest
      | .error e => .error e
    | .long cs =>
      match readLong o cs with
      | .ok o => readCommand name o values rest
      | .error e => .error e
    | .valuesFollow =>
      match readValues name values rest with
      | .ok values => .ok (o, values)
      | .error e => .error e

/-- The request of a command, the options before it, and the arguments behind it. -/
def request (name : Name) (before : Options) (rest : List String) : Except Refusal Request :=
  match readCommand name .none [] rest with
  | .error e => .error e
  | .ok (o, values) =>
    match name.command? values with
    | some c => .ok ⟨before.quiet || o.quiet, c⟩
    | none => .error .usage

/-- What is answered to arguments behind `help`: the name of one command may follow. -/
def helpRefusal : List String → Refusal
  | [] => .help
  | [s] => if s == "help" || (Name.ofString? s).isSome then .help else .usage
  | _ => .usage

/-- Reads the arguments up to the command. -/
def readFrom (o : Options) : List String → Except Refusal Request
  | [] => .error .usage
  | s :: rest =>
    match classify s with
    | .value "help" => .error (helpRefusal rest)
    | .value s =>
      match Name.ofString? s with
      | some name => request name o rest
      | none => .error .usage
    | .short cs =>
      match readShort o cs with
      | .ok o => readFrom o rest
      | .error e => .error e
    | .long cs =>
      match readLong o cs with
      | .ok o => readFrom o rest
      | .error e => .error e
    | .valuesFollow => .error .usage

/-- Reads all arguments. -/
def read (args : List String) : Except Refusal Request := readFrom .none args

end CommandLine
end LanguageForms
