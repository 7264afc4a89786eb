/-
# The sets of states that an automaton can be in

`Automaton.Leads a w s` says that the word `w` over the alphabet leads from the
closure of the start state to the set `s`, and that no set on the way is empty.
These are the sets that a deterministic automaton has to tell apart.
-/
import LanguageForms.Automaton.Closure

namespace LanguageForms
namespace Automaton

/-- The word leads to the set of states, by way of sets that are not empty. -/
inductive Leads (a : Automaton) : List Char → SortedSet State → Prop where
  | nil : Leads a [] a.initial
  | snoc {w : List Char} {s : SortedSet State} {c : Char} :
      Leads a w s → c ∈ a.alphabet → a.advance s c ≠ .empty → Leads a (w ++ [c]) (a.advance s c)

/-- Some word leads to the set of states. -/
def IsReachable (a : Automaton) (s : SortedSet State) : Prop := ∃ w, Leads a w s

/-- A word leads to the set of states that the automaton can be in after it. -/
theorem Leads.eq_after {a : Automaton} {w : List Char} {s : SortedSet State} (h : Leads a w s) :
    s = a.after w := by
  induction h with
  | nil => rfl
  | snoc _ _ _ ih =>
    rw [after, List.foldl_append, ih]
    rfl

end Automaton
end LanguageForms
