/-
# Automata that are handed out

`Automaton.Obtained a` says that some chain of operations hands out the automaton
`a`: it is described or drawn, or it is the result of a conversion of such an
automaton or of an expression, or it is shown by a step of such a conversion.
-/
import LanguageForms.Automaton.Description
import LanguageForms.Automaton.Fragment
import LanguageForms.Automaton.Random
import LanguageForms.Automaton.Subset
import LanguageForms.Automaton.Widening

namespace LanguageForms

/-- A step of the trace shows the automaton. -/
def Trace.Shows (t : Trace) (a : Automaton) : Prop :=
  ∃ e ∈ t.entries, e.snapshot = some (.automaton a)

/-- What is shown is shown by a step; the opening shows nothing. -/
theorem Trace.Shows.exists_step {t : Trace} {a : Automaton} (h : t.Shows a) :
    ∃ e ∈ t.steps, e.snapshot = some (.automaton a) := by
  obtain ⟨e, he, ha⟩ := h
  rcases List.mem_cons.1 he with rfl | he
  · cases ha
  · exact ⟨e, he, ha⟩

/-- The automaton that an entry shows is the one that it was made for. -/
theorem Trace.Entry.eq_of_showing {label explanation : String} {a b : Automaton}
    (h : (showing label explanation (.automaton b)).snapshot = some (.automaton a)) : a = b :=
  (Snapshot.automaton.inj (Option.some.inj h)).symm

namespace Automaton

/-- Some chain of operations hands out the automaton. -/
inductive Obtained : Automaton → Prop where
  | described {l : List Declaration} {start : State} {a : Automaton} :
      (Description.ofList l).toNondeterministic start = .ok a → Obtained a
  | describedDeterministic {l : List Declaration} {start : State} {a : Automaton} :
      (Description.ofList l).toDeterministic start = .ok a → Obtained a
  | drawn {σ : Type} (d : Draws σ) (states symbols : Nat) (density epsilonDensity : Float)
      (s : σ) : Obtained (drawNondeterministic d states symbols density epsilonDensity s).1
  | drawnDeterministic {σ : Type} (d : Draws σ) (symbols : Nat) (chance : Float)
      (maxStates : Nat) (s : σ) :
      d.InBounds → Obtained (drawDeterministic d symbols chance maxStates s).1
  | ofRegex (r : Regex) : Obtained r.toAutomaton.1
  | shownOfRegex {r : Regex} {a : Automaton} : r.toAutomaton.2.Shows a → Obtained a
  | determinised {a d : Automaton} {t : Trace} :
      Obtained a → a.determinise = .ok (d, t) → Obtained d
  | shownDeterminised {a d s : Automaton} {t : Trace} :
      Obtained a → a.determinise = .ok (d, t) → t.Shows s → Obtained s
  | widened {a n : Automaton} {t : Trace} : Obtained a → a.widen = .ok (n, t) → Obtained n
  | shownWidened {a n s : Automaton} {t : Trace} :
      Obtained a → a.widen = .ok (n, t) → t.Shows s → Obtained s

end Automaton
end LanguageForms
