/-
# What declarations say together

Declarations of one sort add up, whatever stands between them.  So a list of them
says which states and symbols are declared, which edges are added and which states
are marked as accepting, and their order matters for the order of the states only.

`Declarations.Fit` says when declarations and a start state make an automaton, and
`Declarations.AreFunctional` when its edges are those of a deterministic one.
`Declarations.Describe` says which automaton it is.  Otherwise something can be said
to be wrong: `Declarations.Misfit` and `Declarations.Ambiguity` say what, and that
everything that is looked at before is as it should be.
-/
import LanguageForms.Automaton.Description

namespace LanguageForms
namespace Automaton

namespace Declaration

/-- The states that a declaration declares. -/
def declaredStates : Declaration → List State
  | states qs => qs
  | _ => []

/-- The symbols that a declaration declares. -/
def declaredSymbols : Declaration → List Char
  | alphabet cs => cs
  | _ => []

/-- The edges that a declaration adds. -/
def addedEdges : Declaration → List Transition
  | transitions ts => ts.map fun t => ⟨t.1, .symbol t.2.1, t.2.2⟩
  | epsilon ts => ts.map fun t => ⟨t.1, .epsilon, t.2⟩
  | _ => []

/-- The states that a declaration marks as accepting. -/
def markedStates : Declaration → List State
  | accepting qs => qs
  | _ => []

end Declaration

namespace Declarations

variable (l : List Declaration) (start : State)

/-- The declared states. -/
def declaredStates : List State := l.flatMap Declaration.declaredStates

/-- The declared symbols. -/
def declaredSymbols : List Char := l.flatMap Declaration.declaredSymbols

/-- The added edges. -/
def addedEdges : List Transition := l.flatMap Declaration.addedEdges

/-- The states that are marked as accepting. -/
def markedStates : List State := l.flatMap Declaration.markedStates

/-- Some declaration is about the states, if only to declare none. -/
def HasStates : Prop := ∃ qs, .states qs ∈ l

/-- Some declaration is about the alphabet, if only to declare no symbol. -/
def HasAlphabet : Prop := ∃ cs, .alphabet cs ∈ l

/-- The states are declared, and the state is none of them. -/
def IsForeign (q : State) : Prop := HasStates l ∧ ¬ q ∈ declaredStates l

/-- The alphabet is declared, and the symbol does not belong to it. -/
def IsForeignSymbol (c : Char) : Prop := HasAlphabet l ∧ ¬ c ∈ declaredSymbols l

/-- What is mentioned is declared, unless nothing of its sort is. -/
structure Fit : Prop where
  states : HasStates l → start ∈ declaredStates l ∧
    (∀ q ∈ markedStates l, q ∈ declaredStates l) ∧
    ∀ t ∈ addedEdges l, t.source ∈ declaredStates l ∧ t.target ∈ declaredStates l
  alphabet : HasAlphabet l →
    ∀ t ∈ addedEdges l, ∀ c, t.label = .symbol c → c ∈ declaredSymbols l

/-- No edge reads nothing, and edges from one state with one symbol have one target. -/
structure AreFunctional : Prop where
  noEpsilon : ∀ t ∈ addedEdges l, t.label ≠ .epsilon
  unique : ∀ c, ∀ s ∈ addedEdges l, ∀ t ∈ addedEdges l, s.label = .symbol c →
    t.label = .symbol c → s.source = t.source → s.target = t.target

/-- The automaton has what is declared and mentioned, and nothing else. -/
structure Describe (kind : Kind) (a : Automaton) : Prop where
  declaredStates : HasStates l → a.states.toList = (declaredStates l).eraseDups
  inferredStates : ¬ HasStates l → a.states.toList =
    (start :: (addedEdges l).flatMap (fun t => [t.source, t.target]) ++ markedStates l).eraseDups
  declaredAlphabet : HasAlphabet l → ∀ c, c ∈ a.alphabet ↔ c ∈ declaredSymbols l
  inferredAlphabet : ¬ HasAlphabet l →
    ∀ c, c ∈ a.alphabet ↔ ∃ t ∈ addedEdges l, t.label = .symbol c
  transitions : ∀ t, t ∈ a.transitions ↔ t ∈ addedEdges l
  accepting : ∀ q, q ∈ a.accepting ↔ q ∈ markedStates l
  start : a.start = start
  kind : a.kind = kind

/-- The different targets of the edges from a state with a symbol. -/
def targets (q : State) (c : Char) : List State :=
  (((addedEdges l).filter fun t => decide (t.label = .symbol c) && decide (t.source = q)).map
    Transition.target).eraseDups

/-- Neither the start state nor a state that is marked as accepting is outside of the declared
ones. -/
structure MarksFit : Prop where
  start : ¬ IsForeign l start
  accepting : ∀ q ∈ markedStates l, ¬ IsForeign l q

/-- The defect names something outside of what is declared: the start state, or else a state that
is marked as accepting, or else a part of an edge. -/
inductive Misfit : Defect → Prop where
  | start : IsForeign l start → Misfit (.unknownStart start)
  | accepting {q : State} :
      ¬ IsForeign l start → q ∈ markedStates l → IsForeign l q → Misfit (.unknownAccepting q)
  | source {t : Transition} :
      MarksFit l start → t ∈ addedEdges l → IsForeign l t.source →
      Misfit (.unknownSource t.source)
  | symbol {t : Transition} {c : Char} :
      MarksFit l start → t ∈ addedEdges l → t.label = .symbol c → IsForeignSymbol l c →
      Misfit (.unknownSymbol t.source c)
  | target {t : Transition} :
      MarksFit l start → t ∈ addedEdges l → IsForeign l t.target →
      Misfit (.unknownTarget t.source t.target)

/-- Everything fits, and the defect names the source of an edge that reads nothing, or a state with
several targets on one symbol. -/
inductive Ambiguity : Defect → Prop where
  | epsilon {t : Transition} :
      Fit l start → t ∈ addedEdges l → t.label = .epsilon → Ambiguity (.epsilonFrom t.source)
  | targets {q : State} {c : Char} :
      Fit l start → 1 < (targets l q c).length →
      Ambiguity (.ambiguous q c (targets l q c).length)

end Declarations
end Automaton
end LanguageForms
