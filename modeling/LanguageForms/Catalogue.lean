/-
# Examples for every conversion

Five named inputs for each kind of conversion.
-/
import LanguageForms.Automaton.Description
import LanguageForms.Conversion

namespace LanguageForms

/-- A named input of a conversion. -/
structure Example where
  name : String
  description : String
  input : Conversion
deriving DecidableEq

namespace Catalogue

/-- The targets of a state on a label; `ε` as a label stands for reading nothing. -/
structure Row where
  source : String
  label : Char
  targets : List String

/-- The transitions of a row. -/
def Row.transitions (r : Row) : List Transition :=
  let label := if r.label == 'ε' then Label.epsilon else Label.symbol r.label
  r.targets.map fun q => ⟨⟨r.source⟩, label, ⟨q⟩⟩

/-- The automaton of a description by rows. -/
def automaton (kind : Automaton.Kind) (states : List String) (alphabet : List Char)
    (rows : List Row) (start : String) (accepting : List String) : Automaton :=
  Automaton.Description.assemble
    { states := some (.ofList (states.map State.mk))
      alphabet := some (.ofList alphabet)
      edges := rows.flatMap Row.transitions
      accepting := accepting.map State.mk } kind ⟨start⟩

/-- A nondeterministic automaton. -/
def nfa := automaton .nondeterministic

/-- A deterministic automaton. -/
def dfa := automaton .deterministic

/-- The words with an even number of zeros, or with another state accepting. -/
def evenZeros (accepting : String) : Automaton :=
  dfa ["A", "B"] ['0', '1']
    [⟨"A", '0', ["B"]⟩, ⟨"A", '1', ["A"]⟩, ⟨"B", '0', ["A"]⟩, ⟨"B", '1', ["B"]⟩] "A" [accepting]

/-- The binary numbers that three divides, with states named for the remainders. -/
def divisibleByThree (zero one two : String) : Automaton :=
  dfa [zero, one, two] ['0', '1']
    [⟨zero, '0', [zero]⟩, ⟨zero, '1', [one]⟩, ⟨one, '0', [two]⟩, ⟨one, '1', [zero]⟩,
      ⟨two, '0', [one]⟩, ⟨two, '1', [two]⟩] zero [zero]

/-- Automata to be determinised. -/
def toDeterminise : List (String × String × Automaton) :=
  [("Binary strings ending with 01", "Accepts binary strings ending with '01'",
      nfa ["q0", "q1", "q2"] ['0', '1']
        [⟨"q0", '0', ["q0", "q1"]⟩, ⟨"q0", '1', ["q0"]⟩, ⟨"q1", '1', ["q2"]⟩] "q0" ["q2"]),
    ("Contains substring 101", "Accepts strings containing substring '101'",
      nfa ["q0", "q1", "q2", "q3"] ['0', '1']
        [⟨"q0", '0', ["q0"]⟩, ⟨"q0", '1', ["q0", "q1"]⟩, ⟨"q1", '0', ["q2"]⟩,
          ⟨"q2", '1', ["q3"]⟩, ⟨"q3", '0', ["q3"]⟩, ⟨"q3", '1', ["q3"]⟩] "q0" ["q3"]),
    ("Strings starting with 1", "Accepts strings starting with '1'",
      nfa ["q0", "q1", "q2"] ['0', '1']
        [⟨"q0", '1', ["q1"]⟩, ⟨"q0", '0', ["q2"]⟩, ⟨"q1", '0', ["q1"]⟩, ⟨"q1", '1', ["q1"]⟩]
        "q0" ["q1"]),
    ("Even number of 0s", "Accepts strings with even number of 0s",
      nfa ["q0", "q1"] ['0', '1']
        [⟨"q0", '0', ["q1"]⟩, ⟨"q0", '1', ["q0"]⟩, ⟨"q1", '0', ["q0"]⟩, ⟨"q1", '1', ["q1"]⟩]
        "q0" ["q0"]),
    ("Epsilon transitions example", "NFA with epsilon transitions",
      nfa ["q0", "q1", "q2", "q3"] ['a', 'b']
        [⟨"q0", 'ε', ["q1"]⟩, ⟨"q0", 'a', ["q2"]⟩, ⟨"q1", 'b', ["q3"]⟩, ⟨"q2", 'a', ["q3"]⟩]
        "q0" ["q3"])]

/-- Deterministic automata to be viewed as nondeterministic ones. -/
def toWiden : List (String × String × Automaton) :=
  [("Simple DFA - Even 0s", "DFA accepting even number of 0s", evenZeros "A"),
    ("DFA - Ends with 10", "DFA accepting strings ending with '10'",
      dfa ["q0", "q1", "q2"] ['0', '1']
        [⟨"q0", '0', ["q0"]⟩, ⟨"q0", '1', ["q1"]⟩, ⟨"q1", '0', ["q2"]⟩, ⟨"q1", '1', ["q1"]⟩,
          ⟨"q2", '0', ["q0"]⟩, ⟨"q2", '1', ["q1"]⟩] "q0" ["q2"]),
    ("DFA - Divisible by 3", "DFA for binary numbers divisible by 3",
      divisibleByThree "s0" "s1" "s2"),
    ("DFA - Contains 11", "DFA accepting strings containing '11'",
      dfa ["p0", "p1", "p2"] ['0', '1']
        [⟨"p0", '0', ["p0"]⟩, ⟨"p0", '1', ["p1"]⟩, ⟨"p1", '0', ["p0"]⟩, ⟨"p1", '1', ["p2"]⟩,
          ⟨"p2", '0', ["p2"]⟩, ⟨"p2", '1', ["p2"]⟩] "p0" ["p2"]),
    ("DFA - Odd length", "DFA accepting strings of odd length",
      dfa ["even", "odd"] ['0', '1']
        [⟨"even", '0', ["odd"]⟩, ⟨"even", '1', ["odd"]⟩, ⟨"odd", '0', ["even"]⟩,
          ⟨"odd", '1', ["even"]⟩] "even" ["odd"])]

/-- Nondeterministic automata whose expressions are wanted. -/
def nfaToExpress : List (String × String × Automaton) :=
  [("Simple NFA 1", "NFA to convert to regular expression",
      nfa ["q0", "q1"] ['a', 'b']
        [⟨"q0", 'a', ["q0"]⟩, ⟨"q0", 'b', ["q1"]⟩, ⟨"q1", 'b', ["q1"]⟩] "q0" ["q1"]),
    ("Simple NFA 2", "Three-state NFA for RE conversion",
      nfa ["p0", "p1", "p2"] ['0', '1']
        [⟨"p0", '0', ["p1"]⟩, ⟨"p0", '1', ["p0"]⟩, ⟨"p1", '1', ["p2"]⟩, ⟨"p2", '0', ["p2"]⟩,
          ⟨"p2", '1', ["p2"]⟩] "p0" ["p2"]),
    ("NFA with loops", "NFA with self-loops",
      nfa ["s0", "s1"] ['x', 'y']
        [⟨"s0", 'x', ["s0", "s1"]⟩, ⟨"s0", 'y', ["s0"]⟩, ⟨"s1", 'y', ["s1"]⟩] "s0" ["s1"]),
    ("Complex NFA", "Four-state NFA for complex RE",
      nfa ["r0", "r1", "r2", "r3"] ['a', 'b']
        [⟨"r0", 'a', ["r1"]⟩, ⟨"r0", 'b', ["r0"]⟩, ⟨"r1", 'a', ["r2"]⟩, ⟨"r1", 'b', ["r1"]⟩,
          ⟨"r2", 'a', ["r3"]⟩, ⟨"r2", 'b', ["r2"]⟩, ⟨"r3", 'a', ["r3"]⟩, ⟨"r3", 'b', ["r3"]⟩]
        "r0" ["r3"]),
    ("Epsilon NFA", "NFA with epsilon transitions",
      nfa ["t0", "t1", "t2"] ['a', 'b']
        [⟨"t0", 'ε', ["t1"]⟩, ⟨"t0", 'a', ["t0"]⟩, ⟨"t1", 'b', ["t2"]⟩, ⟨"t2", 'ε', ["t0"]⟩]
        "t0" ["t2"])]

/-- Deterministic automata whose expressions are wanted. -/
def dfaToExpress : List (String × String × Automaton) :=
  [("Two-state DFA", "Simple two-state DFA", evenZeros "B"),
    ("Three-state DFA", "Three-state cyclic DFA",
      dfa ["X", "Y", "Z"] ['a', 'b']
        [⟨"X", 'a', ["Y"]⟩, ⟨"X", 'b', ["X"]⟩, ⟨"Y", 'a', ["Z"]⟩, ⟨"Y", 'b', ["Y"]⟩,
          ⟨"Z", 'a', ["X"]⟩, ⟨"Z", 'b', ["Z"]⟩] "X" ["Z"]),
    ("DFA for mod 3", "DFA for numbers divisible by 3", divisibleByThree "0" "1" "2"),
    ("String pattern DFA", "DFA recognizing pattern 'aba'",
      dfa ["q0", "q1", "q2", "q3"] ['a', 'b']
        [⟨"q0", 'a', ["q1"]⟩, ⟨"q0", 'b', ["q0"]⟩, ⟨"q1", 'a', ["q1"]⟩, ⟨"q1", 'b', ["q2"]⟩,
          ⟨"q2", 'a', ["q3"]⟩, ⟨"q2", 'b', ["q0"]⟩, ⟨"q3", 'a', ["q1"]⟩, ⟨"q3", 'b', ["q2"]⟩]
        "q0" ["q3"]),
    ("Alternating DFA", "DFA for even number of x's",
      dfa ["even", "odd"] ['x'] [⟨"even", 'x', ["odd"]⟩, ⟨"odd", 'x', ["even"]⟩]
        "even" ["even"])]

/-- Patterns of deterministic automata with their descriptions. -/
def dfaPatterns : List (String × String) :=
  [("(0+1)*01", "Regular expression for strings ending with '01'"),
    ("1(0+1)*", "Regular expression for strings starting with '1'"),
    ("(00+11)*", "Regular expression for strings with even blocks"),
    ("0*1*", "Regular expression for 0s followed by 1s"),
    ("(0+1)*101(0+1)*", "Regular expression containing '101'")]

/-- Patterns of nondeterministic automata with their descriptions. -/
def nfaPatterns : List (String × String) :=
  [("a*b+", "Zero or more 'a's followed by one or more 'b's"),
    ("(a+b)*abb", "Any string ending with 'abb'"),
    ("a+b*a", "Either 'a', or zero or more 'b's followed by 'a'"),
    ("(ab+ba)*", "Zero or more occurrences of 'ab' or 'ba'"),
    ("a(a+b)*b", "Starts with 'a', ends with 'b'")]

/-- Names, rules and descriptions of grammars. -/
def grammars : List (String × String × String) :=
  [("CFG: S → aSb | ε", "S → aSb | ε", "Context-free grammar for a^n b^n"),
    ("CFG: Palindromes", "S → aSa | bSb | a | b | ε", "CFG for palindromes over \x7ba,b\x7d"),
    ("CFG: Balanced parentheses", "S → (S) | SS | ε", "CFG for balanced parentheses"),
    ("CFG: Arithmetic expressions", "E → E+T | T; T → T*F | F; F → (E) | id",
      "CFG for arithmetic expressions"),
    ("CFG: Nested structures", "S → aSbS | bSaS | ε", "CFG for nested a's and b's")]

/-- Examples whose inputs are automata. -/
def ofAutomata (wrap : Automaton → Conversion) (l : List (String × String × Automaton)) :
    List Example :=
  l.map fun e => ⟨e.1, e.2.1, wrap e.2.2⟩

/-- Examples whose inputs are patterns, which are their names as well. -/
def ofPatterns (wrap : String → Conversion) (l : List (String × String)) : List Example :=
  l.map fun e => ⟨e.1, e.2, wrap e.1⟩

/-- Examples whose inputs are grammars. -/
def ofGrammars (l : List (String × String × String)) : List Example :=
  l.filterMap fun e =>
    match Grammar.read e.2.1 with
    | .ok g => some ⟨e.1, e.2.2, .grammarToPushdown g⟩
    | .error _ => none

/-- The examples for a kind of conversion. -/
def examples : Conversion.Kind → List Example
  | .nfaToDfa => ofAutomata .nfaToDfa toDeterminise
  | .dfaToNfa => ofAutomata .dfaToNfa toWiden
  | .regexToNfa => ofPatterns .regexToNfa nfaPatterns
  | .regexToDfa => ofPatterns .regexToDfa dfaPatterns
  | .nfaToRegex => ofAutomata .nfaToRegex nfaToExpress
  | .dfaToRegex => ofAutomata .dfaToRegex dfaToExpress
  | .grammarToPushdown => ofGrammars grammars

/-- The example with a given name. -/
def find? (kind : Conversion.Kind) (name : String) : Option Example :=
  (examples kind).find? fun e => decide (e.name = name)

end Catalogue

end LanguageForms
