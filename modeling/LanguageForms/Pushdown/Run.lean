/-
# Runs of a pushdown automaton

A configuration is a state, the rest of the word and the stack.  A move between
declared states fires if what it reads begins the word and what it takes lies on
top of the stack.  A word is recognised if some run from the start state, the
whole word and the empty stack ends in an accepting state with the word read; the
stack may hold anything then.
-/
import LanguageForms.Pushdown.Basic

namespace LanguageForms
namespace Pushdown

/-- A state, the rest of the word, and the stack with its top first. -/
structure Config where
  state : State
  unread : List Char
  stack : List Char
deriving DecidableEq

/-- A move fires. -/
inductive Step (p : Pushdown) : Config → Config → Prop where
  | fire {m : Move} (unread stack : List Char) :
      m ∈ p.moves → m.source ∈ p.states → m.target ∈ p.states →
      Step p ⟨m.source, m.label.spelled ++ unread, m.pop.toList ++ stack⟩
        ⟨m.target, unread, m.push ++ stack⟩

/-- Any number of moves fire, one after the other. -/
inductive Run (p : Pushdown) : Config → Config → Prop where
  | refl (c : Config) : Run p c c
  | head {c d e : Config} : Step p c d → Run p d e → Run p c e

/-- Some run reads the word and ends in an accepting state. -/
def Recognizes (p : Pushdown) (word : List Char) : Prop :=
  ∃ q stack, Run p ⟨p.start, word, []⟩ ⟨q, [], stack⟩ ∧ q ∈ p.accepting

namespace Run

variable {p : Pushdown}

/-- A step is a run. -/
theorem single {c d : Config} (h : Step p c d) : Run p c d := .head h (.refl d)

/-- Two runs make a run. -/
theorem trans {c d e : Config} (h₁ : Run p c d) (h₂ : Run p d e) : Run p c e := by
  induction h₁ with
  | refl => exact h₂
  | head h _ ih => exact .head h (ih h₂)

/-- A run to another state begins with a move. -/
theorem exists_step {c d : Config} (h : Run p c d) (hne : c.state ≠ d.state) :
    ∃ e, Step p c e ∧ Run p e d := by
  cases h with
  | refl => exact absurd rfl hne
  | head hstep hrest => exact ⟨_, hstep, hrest⟩

end Run
end Pushdown
end LanguageForms
