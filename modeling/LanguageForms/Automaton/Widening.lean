/-
# A deterministic automaton as a nondeterministic one

Every transition `δ(q, a) = p` becomes `δ(q, a) = {p}`; nothing else changes.
-/
import LanguageForms.Automaton.Defect
import LanguageForms.Trace

namespace LanguageForms
namespace Automaton

/-- The automaton without its transitions, as a nondeterministic one. -/
def skeleton (a : Automaton) : Automaton :=
  { a with kind := .nondeterministic, transitions := .empty }

/-- The automaton as a nondeterministic one. -/
def asNondeterministic (a : Automaton) : Automaton := { a with kind := .nondeterministic }

/-- What is told about the transitions. -/
def wideningStory (a : Automaton) : String :=
  "Each DFA transition δ(q, a) = p becomes an NFA transition δ(q, a) = \x7bp\x7d, single " ++
    "destinations become singleton sets. " ++ a.transitionCount.repr ++
    " transitions were converted."

/-- The steps from a deterministic automaton to a nondeterministic one. -/
def wideningTrace (a : Automaton) : Trace :=
  ⟨"Converting a DFA to an NFA is straightforward since every DFA is already an NFA. We just " ++
      "need to ensure the transition function has the right format.",
    [.showing "Copy states and start/accepting states"
      "All DFA states become NFA states with the same names and properties."
      (.automaton a.skeleton),
    .showing "Convert transitions to NFA format" a.wideningStory (.automaton a.asNondeterministic),
    .showing "NFA conversion complete"
      ("The resulting NFA is equivalent to the original DFA. No additional nondeterminism was " ++
        "introduced.")
      (.automaton a.asNondeterministic)]⟩

/-- A deterministic automaton as a nondeterministic one, or why it is no deterministic one. -/
def widen (a : Automaton) : Except Defect (Automaton × Trace) :=
  match a.deterministicDefect? with
  | some d => .error d
  | none => .ok (a.asNondeterministic, a.wideningTrace)

end Automaton
end LanguageForms
