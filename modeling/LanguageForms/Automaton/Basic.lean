/-
# Finite automata

An automaton has states in the order of their declaration, an alphabet, a set of
labelled transitions, a start state and a set of accepting states.  A label is a
symbol or `ε`; the character `ε` as a symbol is something else than the label.

Nothing here asks that the parts fit together: `LanguageForms.Automaton.Defect`
says when they do.
-/
import LanguageForms.SortedSet
import LanguageForms.DistinctList
import LanguageForms.Text.Collection

namespace LanguageForms

/-- A state is known by its name. -/
structure State where
  name : String
deriving DecidableEq, Hashable

/-- States are listed by their names. -/
instance : Sortable State :=
  Sortable.comap State.name fun {p q} h => by
    cases p
    cases q
    cases h
    rfl

/-- The state with a given number. -/
def State.numbered (n : Nat) : State := ⟨"q" ++ n.repr⟩

/-- Different numbers give different states. -/
theorem State.numbered_injective {m n : Nat} (h : State.numbered m = State.numbered n) :
    m = n := by
  have hname : "q" ++ m.repr = "q" ++ n.repr := congrArg State.name h
  have hrepr : m.repr = n.repr := (String.append_right_inj "q").1 hname
  have hdigits : Nat.toDigits 10 m = Nat.toDigits 10 n := by
    rw [← Nat.toList_repr, ← Nat.toList_repr, hrepr]
  rw [← @Nat.ofDigitChars_ten_toDigits m, hdigits, Nat.ofDigitChars_ten_toDigits]

/-- What a transition reads: a symbol, or nothing. -/
inductive Label where
  | symbol (c : Char)
  | epsilon
deriving DecidableEq

namespace Label

/-- The symbol that is read, if there is one. -/
def symbol? : Label → Option Char
  | symbol c => some c
  | epsilon => none

/-- What a label adds to the word that a path spells. -/
def spelled : Label → List Char
  | symbol c => [c]
  | epsilon => []

/-- Symbols come by code point, and `ε` after all of them. -/
def position : Label → Nat × Nat
  | symbol c => (0, c.toNat)
  | epsilon => (1, 0)

instance : Sortable Label :=
  Sortable.comap position fun {a b} h => by
    cases a <;> cases b <;> simp only [position, Prod.mk.injEq] at h
    · rw [Char.toNat_inj.1 h.2]
    · exact absurd h.1 (by decide)
    · exact absurd h.1 (by decide)
    · rfl

/-- The text of a label. -/
def text (l : Label) : String := Text.symbolOrEmpty l.symbol?

end Label

/-- A step from one state to another, reading a label. -/
structure Transition where
  source : State
  label : Label
  target : State
deriving DecidableEq

/-- Transitions are listed by source, then label, then target. -/
instance : Sortable Transition :=
  Sortable.comap (fun t => (t.source, t.label, t.target)) fun {s t} h => by
    cases s
    cases t
    cases h
    rfl

/-- What is known of an automaton's transitions. -/
inductive Automaton.Kind where
  /-- No restriction. -/
  | nondeterministic
  /-- At most one successor for a state and a symbol, and no `ε`. -/
  | deterministic
deriving DecidableEq

/-- The short name of a kind. -/
def Automaton.Kind.text : Automaton.Kind → String
  | nondeterministic => "NFA"
  | deterministic => "DFA"

/-- A finite automaton. -/
structure Automaton where
  kind : Automaton.Kind
  states : DistinctList State
  alphabet : SortedSet Char
  transitions : SortedSet Transition
  start : State
  accepting : SortedSet State
deriving DecidableEq

namespace Automaton

/-- The number of states. -/
def size (a : Automaton) : Nat := a.states.size

/-- The number of transitions. -/
def transitionCount (a : Automaton) : Nat := a.transitions.size

/-- Whether a state is accepting. -/
def isAccepting (a : Automaton) (q : State) : Bool := decide (q ∈ a.accepting)

/-- The targets of the transitions from a state with a label, in order. -/
def successors (a : Automaton) (q : State) (l : Label) : List State :=
  (a.transitions.toList.filter fun t => decide (t.label = l) && decide (t.source = q)).map
    Transition.target

/-- The successors of a state are the targets of its transitions with the label. -/
theorem mem_successors {a : Automaton} {p q : State} {l : Label} :
    q ∈ a.successors p l ↔ ⟨p, l, q⟩ ∈ a.transitions := by
  simp only [successors, List.mem_map, List.mem_filter, Bool.and_eq_true, decide_eq_true_eq]
  constructor
  · rintro ⟨⟨s, k, t⟩, ⟨h, rfl, rfl⟩, rfl⟩
    exact h
  · exact fun h => ⟨_, ⟨h, rfl, rfl⟩, rfl⟩

/-- Whether some transition reads nothing. -/
def hasEpsilon (a : Automaton) : Bool := a.transitions.any fun t => decide (t.label = .epsilon)

/-- Whether two automata have the same parts; the order of their states does not matter. -/
def sameAs (a b : Automaton) : Bool :=
  a.states.sameMembers b.states && decide ({ a with states := b.states } = b)

/-- A name that is not taken yet: the given one, with as many primes as it takes.  A name
that was tried is longer than all that were tried before it, so it can be struck off. -/
def freshState (taken : List State) (base : String) : State :=
  if h : ⟨base⟩ ∈ taken then
    have : (taken.erase ⟨base⟩).length < taken.length := by
      rw [List.length_erase_of_mem h]
      exact Nat.sub_lt (List.length_pos_of_mem h) Nat.zero_lt_one
    freshState (taken.erase ⟨base⟩) (base ++ "'")
  else ⟨base⟩
termination_by taken.length

end Automaton

end LanguageForms
