/-
# Paths through an automaton

`Automaton.Path a p w q` says that some transitions lead from `p` to `q` whose
labels, without the empty ones, spell `w`.  `Automaton.Recognizes` asks for a
path from the start state to an accepting state.
-/
import LanguageForms.Automaton.Basic

namespace LanguageForms
namespace Automaton

/-- Transitions of the automaton lead from one state to another and spell a word. -/
inductive Path (a : Automaton) : State → List Char → State → Prop where
  | nil (q : State) : Path a q [] q
  | cons {p q r : State} {l : Label} {w : List Char} :
      ⟨p, l, q⟩ ∈ a.transitions → Path a q w r → Path a p (l.spelled ++ w) r

/-- A path from the start state to an accepting state spells the word. -/
def Recognizes (a : Automaton) (word : List Char) : Prop :=
  ∃ q, Path a a.start word q ∧ q ∈ a.accepting

namespace Path

variable {a : Automaton}

/-- A transition is a path that spells its label. -/
theorem single {p q : State} {l : Label} (h : ⟨p, l, q⟩ ∈ a.transitions) :
    Path a p l.spelled q :=
  List.append_nil l.spelled ▸ cons h (nil q)

/-- Two paths make a path that spells both words. -/
theorem append {p q r : State} {u v : List Char} (hu : Path a p u q) (hv : Path a q v r) :
    Path a p (u ++ v) r := by
  induction hu with
  | nil => exact hv
  | cons h _ ih =>
    rw [List.append_assoc]
    exact cons h (ih hv)

/-- A path stays one in an automaton with more transitions. -/
theorem mono {b : Automaton} {p q : State} {w : List Char}
    (hsub : ∀ t ∈ a.transitions, t ∈ b.transitions) (h : Path a p w q) : Path b p w q := by
  induction h with
  | nil q => exact nil q
  | cons ht _ ih => exact cons (hsub _ ht) ih

/-- From a state that no transition leaves a path reads nothing. -/
theorem eq_nil_of_end {p q : State} {w : List Char} (hp : ∀ t ∈ a.transitions, t.source ≠ p)
    (h : Path a p w q) : w = [] := by
  cases h with
  | nil => rfl
  | cons ht _ => exact absurd rfl (hp _ ht)

end Path
end Automaton
end LanguageForms
