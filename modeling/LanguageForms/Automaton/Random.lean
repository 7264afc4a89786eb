/-
# Random automata

A nondeterministic automaton is drawn transition by transition.  A deterministic
one grows from its start state: states are treated in order, and for each symbol
the states up to the one at hand are tried in order as its target; if none is
picked, the target is a new state while there may be more, and any state after
that.  Every state is accepting with the chance of a coin.
-/
import LanguageForms.Automaton.Basic
import LanguageForms.Draws

namespace LanguageForms
namespace Automaton

/-- The lowercase letters of the basic alphabet. -/
def letters : List Char := (List.range 26).map fun i => Char.ofNat ('a'.toNat + i)

/-- The first states by number. -/
def firstStates (n : Nat) : List State := (List.range n).map State.numbered

/-- What can be drawn from one state to another, each with its chance. -/
def candidates (symbols : List Char) (density epsilonDensity : Float) (p q : State) :
    List (Transition × Float) :=
  symbols.map (fun c => (⟨p, .symbol c, q⟩, density)) ++
    if p = q then [] else [(⟨p, .epsilon, q⟩, epsilonDensity)]

variable {σ : Type}

/-- A random nondeterministic automaton with the given numbers of states and symbols. -/
def drawNondeterministic (d : Draws σ) (states symbols : Nat) (density epsilonDensity : Float)
    (s : σ) : Automaton × σ :=
  let names := firstStates (Nat.max states 1)
  let symbols := letters.take symbols
  let transitions := d.keepEach
    (names.flatMap fun p => names.flatMap (candidates symbols density epsilonDensity p)) s
  let accepting := d.keepHalf names transitions.2
  ({ kind := .nondeterministic
     states := .ofList names
     alphabet := .ofList symbols
     transitions := .ofList transitions.1
     start := .numbered 0
     accepting := .ofList accepting.1 }, accepting.2)

/-- What has grown: the number of states, and the transitions between their numbers. -/
structure Growth where
  count : Nat
  edges : List (Nat × Char × Nat)

namespace Growth

/-- Adds a transition that was drawn for a state and a symbol. -/
def addEdge (g : Growth) (source : Nat) (c : Char) (target : Nat) : Growth :=
  ⟨Nat.max g.count (target + 1), g.edges ++ [(source, c, target)]⟩

/-- Draws the target of a state and a symbol. -/
def target (d : Draws σ) (chance : Float) (maxStates : Nat) (g : Growth) (source : Nat) (s : σ) :
    Nat × σ :=
  let hit := d.firstHit chance 0 (source + 1) s
  match hit.1 with
  | some target => (target, hit.2)
  | none => if g.count < maxStates then (g.count, hit.2) else d.below g.count hit.2

/-- Draws the targets of a state for some symbols. -/
def treat (d : Draws σ) (chance : Float) (maxStates source : Nat) :
    List Char → Growth → σ → Growth × σ
  | [], g, s => (g, s)
  | c :: cs, g, s =>
    let drawn := g.target d chance maxStates source s
    treat d chance maxStates source cs (g.addEdge source c drawn.1) drawn.2

/-- Treats the states in order, from a given one on, until none is left. -/
def grow (d : Draws σ) (chance : Float) (maxStates : Nat) (symbols : List Char) :
    Nat → Nat → Growth → σ → Growth × σ
  | 0, _, g, s => (g, s)
  | n + 1, source, g, s =>
    if source < g.count then
      let treated := treat d chance maxStates source symbols g s
      grow d chance maxStates symbols n (source + 1) treated.1 treated.2
    else (g, s)

/-- The transitions between numbered states. -/
def transitions (g : Growth) : List Transition :=
  g.edges.map fun e => ⟨.numbered e.1, .symbol e.2.1, .numbered e.2.2⟩

end Growth

/-- A random deterministic automaton with a given number of symbols and at most a given number
of states, but at least one. -/
def drawDeterministic (d : Draws σ) (symbols : Nat) (chance : Float) (maxStates : Nat) (s : σ) :
    Automaton × σ :=
  let symbols := letters.take symbols
  let maxStates := Nat.max maxStates 1
  let grown := Growth.grow d chance maxStates symbols maxStates 0 ⟨1, []⟩ s
  let names := firstStates grown.1.count
  let accepting := d.keepHalf names grown.2
  ({ kind := .deterministic
     states := .ofList names
     alphabet := .ofList symbols
     transitions := .ofList grown.1.transitions
     start := .numbered 0
     accepting := .ofList accepting.1 }, accepting.2)

end Automaton
end LanguageForms
