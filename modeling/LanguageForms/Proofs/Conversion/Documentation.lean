/-
# The trace documents the conversion

The trace of a successful conversion is complete (`Conversion.Documented`): behind an
opening that shows nothing every step shows an object, the last one shows the result,
and there are as many entries as the input and the result say.  Only a conversion from
an expression to a deterministic automaton has one step that shows nothing, between
its two halves.

Each engine has its own count: an event for a state or a transition that is found, a
node of a tree, a state that is eliminated, a production.  The traces of the engines
are treated one after the other (`tells_subsets` and so on), and then the kinds of
conversions.
-/
import LanguageForms.Proofs.Conversion.Outcome
import LanguageForms.Proofs.Generalized.Steps
import LanguageForms.Proofs.Trace

namespace LanguageForms
namespace Conversion

/-- The object shows the result.  That there is no expression is shown by an automaton without
edges that has only a start state and an accepting state. -/
def Result.IsShownBy : Result → Snapshot → Prop
  | automaton a, s => s = .automaton a
  | pushdown p, s => s = .pushdown p
  | regex (some r), s => s = .regex r
  | regex none, s =>
    ∃ g, s = .generalized g ∧ g.states.toList = [g.start, g.accept] ∧ g.edges.entries = []

/-- The expression of a pattern, if it can be read. -/
def parsed? (pattern : String) : Option Regex := (Regex.parse pattern).toOption

/-- The number of the step between the two halves of a conversion from an expression to a
deterministic automaton; the other conversions have no such step. -/
def delimiterStep? : Conversion → Option Nat
  | regexToDfa pattern => (parsed? pattern).map fun r => r.size + 2
  | _ => none

/-- The number of entries that the trace of a conversion with a given result should have, if a
conversion of this kind has such a result. -/
def entryCount? : Conversion → Result → Option Nat
  | nfaToDfa _, .automaton d => some (2 + d.size + d.transitionCount)
  | dfaToNfa _, .automaton _ => some 4
  | regexToNfa pattern, .automaton _ => (parsed? pattern).map fun r => r.size + 2
  | regexToDfa pattern, .automaton d =>
    (parsed? pattern).map fun r => r.size + d.size + d.transitionCount + 4
  | nfaToRegex a, .regex _ => some (a.size + 3)
  | dfaToRegex a, .regex _ => some (a.size + 3)
  | grammarToPushdown g, .pushdown _ => some (g.productions.length + 4)
  | _, _ => none

/-- The trace of the report documents the conversion. -/
structure Documented (c : Conversion) (report : Report) : Prop where
  opening : ∃ story, report.trace.get? 0 = some ⟨"Initialized", story, none⟩
  shown : ∀ i e, 0 < i → report.trace.get? i = some e →
    (e.snapshot = none ↔ c.delimiterStep? = some i)
  delimiter : ∀ i, c.delimiterStep? = some i →
    report.trace.get? i = some ⟨delimiterLabel, delimiterStory, none⟩
  last : ∃ s, report.trace.last.snapshot = some s ∧ report.result.IsShownBy s
  length : c.entryCount? report.result = some report.trace.length

/-- A trace without a delimiter documents a conversion that has none if every step shows something
and the last one the result. -/
theorem documented_of_tells {c : Conversion} {report : Report} (hc : c.delimiterStep? = none)
    (h : report.trace.Tells report.result.IsShownBy)
    (hlength : c.entryCount? report.result = some report.trace.length) : c.Documented report where
  opening := ⟨report.trace.opening, rfl⟩
  shown i e hi he := by
    obtain ⟨k, rfl⟩ := Nat.exists_eq_add_of_le' hi
    rw [Trace.get?_succ] at he
    rw [hc]
    exact iff_of_false (h.shown e (List.mem_of_getElem? he)) (Option.some_ne_none _).symm
  delimiter i hi := by
    rw [hc] at hi
    cases hi
  last := h.last
  length := hlength

end Conversion

open Conversion

/-! ### Automata -/

namespace Automaton

/-- The discovery shows every event and then the result. -/
theorem tells_subsets (a : Automaton) :
    a.subsets.2.Tells (Result.automaton a.subsets.1).IsShownBy := by
  refine Trace.tells_concat (fun e he => ?_) ⟨_, rfl, rfl⟩
  rw [Subset.narrate_eq] at he
  obtain ⟨k, hk, rfl⟩ := List.mem_mapIdx.1 he
  exact Option.some_ne_none _

/-- The discovery has an entry for every state and every transition, and two more. -/
theorem length_subsets (a : Automaton) :
    a.subsets.2.length = 2 + a.subsets.1.size + a.subsets.1.transitionCount := by
  show (Subset.narrate a _ (Subset.events a) ++ [_]).length + 1 = _
  rw [Subset.narrate_eq, List.length_append, List.length_mapIdx, Subset.length_events,
    List.length_singleton]
  omega

/-- Widening shows the states, the transitions and the result. -/
theorem tells_wideningTrace (a : Automaton) :
    a.wideningTrace.Tells (Result.automaton a.asNondeterministic).IsShownBy := by
  refine Trace.tells_concat (l := [_, _]) (fun e he => ?_) ⟨_, rfl, rfl⟩
  rcases List.mem_cons.1 he with rfl | he
  · exact Option.some_ne_none _
  · rw [List.mem_singleton.1 he]
    exact Option.some_ne_none _

end Automaton

namespace Generalized

variable {g : Generalized} {a : Automaton}

/-- If no edge leads from the new start state to the new accepting state in the end, there is
none at all. -/
theorem Represents.entries_eq_nil (h : g.Represents a []) (hnone : g.answer = none) :
    g.edges.entries = [] := by
  refine List.eq_nil_iff_forall_not_mem.2 ?_
  rintro ⟨⟨p, q⟩, r⟩ hmem
  have hr : g.edge? p q = some r := SortedMap.get?_eq_some_iff.2 hmem
  obtain ⟨rfl, rfl⟩ := h.ends_of_edge? hr
  exact Option.some_ne_none r (hr.symm.trans hnone)

/-- The last entry shows the expression, or that there is none. -/
theorem Represents.shows_finalEntry (h : g.Represents a []) :
    ∃ s, g.finalEntry.snapshot = some s ∧ (Result.regex g.answer).IsShownBy s := by
  unfold finalEntry
  cases hanswer : g.answer with
  | some r => exact ⟨.regex r, rfl, rfl⟩
  | none => exact ⟨.generalized g, rfl, g, rfl, h.states, h.entries_eq_nil hanswer⟩

end Generalized

namespace Automaton

/-- The elimination shows what is left of the automaton, and in the end its expression. -/
theorem tells_elimination {a : Automaton} (ha : a.WellFormed) :
    a.elimination.2.Tells (Result.regex a.elimination.1).IsShownBy := by
  refine Trace.tells_concat (l := _ :: _) (fun e he => ?_) ?_
  · rcases List.mem_cons.1 he with rfl | he
    · exact Option.some_ne_none _
    · exact Generalized.snapshot_ne_none_of_mem_eliminateAll he
  · exact (Generalized.represents_eliminateAll ha (List.append_nil _).symm).shows_finalEntry

/-- The elimination has an entry for every state, and three more. -/
theorem length_elimination (a : Automaton) : a.elimination.2.length = a.size + 3 := by
  show ((_ :: (Generalized.eliminateAll _ a.states.toList).2) ++ [_]).length + 1 = _
  rw [List.length_append, List.length_cons, Generalized.length_eliminateAll]
  rfl

end Automaton

/-! ### Expressions -/

namespace Regex

/-- The construction shows the fragment of every node and then the result. -/
theorem tells_toAutomaton (r : Regex) :
    r.toAutomaton.2.Tells (Result.automaton r.toAutomaton.1).IsShownBy := by
  refine Trace.tells_concat (fun e he => ?_) ⟨_, rfl, rfl⟩
  rw [steps_build] at he
  obtain ⟨p, -, rfl⟩ := List.mem_map.1 he
  exact Option.some_ne_none _

/-- The construction has an entry for every node, and two more. -/
theorem length_toAutomaton (r : Regex) : r.toAutomaton.2.length = r.size + 2 := by
  show ((build r.alphabet r 0).2 ++ [_]).length + 1 = _
  rw [List.length_append, length_steps_build]
  rfl

end Regex

/-! ### Grammars -/

namespace Grammar

/-- Every production is told in one step. -/
theorem length_productionEntries (p : Pushdown) (ps : List Production) :
    (productionEntries p ps).length = ps.length := by
  induction ps generalizing p with
  | nil => rfl
  | cons q ps ih => exact congrArg (· + 1) (ih _)

/-- Every step for a production shows something. -/
theorem snapshot_ne_none_of_mem_productionEntries {p : Pushdown} {ps : List Production}
    {e : Trace.Entry} (he : e ∈ productionEntries p ps) : e.snapshot ≠ none := by
  induction ps generalizing p with
  | nil => exact absurd he List.not_mem_nil
  | cons q ps ih =>
    rcases List.mem_cons.1 he with rfl | he
    · exact Option.some_ne_none _
    · exact ih he

/-- The translation shows the automaton with more and more moves. -/
theorem tells_automatonTrace (g : Grammar) :
    g.automatonTrace.Tells (Result.pushdown g.automaton).IsShownBy := by
  have htrace : g.automatonTrace = ⟨g.automatonTrace.opening,
      (g.setupEntry :: productionEntries g.withSetup g.productions ++ [g.terminalsEntry]) ++
        [g.acceptEntry]⟩ :=
    congrArg (Trace.mk _) (List.append_assoc _ [g.terminalsEntry] [g.acceptEntry]).symm
  rw [htrace]
  refine Trace.tells_concat (fun e he => ?_) ⟨_, rfl, rfl⟩
  rcases List.mem_append.1 he with he | he
  · rcases List.mem_cons.1 he with rfl | he
    · exact Option.some_ne_none _
    · exact snapshot_ne_none_of_mem_productionEntries he
  · rw [List.mem_singleton.1 he]
    exact Option.some_ne_none _

/-- The translation has an entry for every production, and four more. -/
theorem length_automatonTrace (g : Grammar) :
    g.automatonTrace.length = g.productions.length + 4 := by
  show (_ :: productionEntries _ g.productions ++ [_, _]).length + 1 = _
  rw [List.length_append, List.length_cons, length_productionEntries]
  rfl

end Grammar

/-! ### All kinds of conversions -/

namespace Conversion

/-- A pattern that can be read is parsed to what is read. -/
theorem parsed?_eq {pattern : String} {r : Regex} (h : Regex.parse pattern = .ok r) :
    parsed? pattern = some r := congrArg Except.toOption h

/-- The two halves of a conversion from an expression to a deterministic automaton. -/
theorem documented_regexToDfa {pattern : String} {r : Regex} (hr : Regex.parse pattern = .ok r) :
    Documented (.regexToDfa pattern) ⟨.automaton r.toAutomaton.1.subsets.1,
      r.toAutomaton.2.andThen delimiterLabel delimiterStory r.toAutomaton.1.subsets.2⟩ := by
  have hstep : (regexToDfa pattern).delimiterStep? = some r.toAutomaton.2.length := by
    rw [delimiterStep?, parsed?_eq hr, Regex.length_toAutomaton]
    rfl
  have hfirst := Regex.tells_toAutomaton r
  have hsecond := Automaton.tells_subsets r.toAutomaton.1
  constructor
  case opening => exact ⟨_, rfl⟩
  case shown =>
    intro i e hi he
    rw [hstep, Trace.snapshot_eq_none_iff_of_andThen hfirst.shown hsecond.shown hi he,
      Option.some_inj, eq_comm]
  case delimiter =>
    intro i hi
    rw [← Option.some.inj (hstep.symm.trans hi)]
    exact Trace.get?_length_andThen
  case last =>
    rw [Trace.last_andThen (List.append_ne_nil_of_right_ne_nil _ (List.cons_ne_nil _ _))]
    exact hsecond.last
  case length =>
    rw [entryCount?, parsed?_eq hr, Trace.length_andThen, Regex.length_toAutomaton,
      Automaton.length_subsets]
    refine congrArg some ?_
    show r.size + _ + _ + 4 = _
    omega

/-- What a conversion gives documents it. -/
theorem Gives.documented {c : Conversion} {report : Report} (h : c.Gives report) :
    c.Documented report := by
  cases h with
  | @nfaToDfa a _ =>
    exact documented_of_tells rfl a.tells_subsets (congrArg some a.length_subsets.symm)
  | @dfaToNfa a _ _ => exact documented_of_tells rfl a.tells_wideningTrace rfl
  | @regexToNfa pattern r hr =>
    refine documented_of_tells rfl r.tells_toAutomaton ?_
    rw [entryCount?, parsed?_eq hr, Regex.length_toAutomaton]
    rfl
  | regexToDfa hr => exact documented_regexToDfa hr
  | @nfaToRegex a ha =>
    exact documented_of_tells rfl (a.tells_elimination ha) (congrArg some a.length_elimination.symm)
  | @dfaToRegex a ha _ =>
    exact documented_of_tells rfl (a.tells_elimination ha) (congrArg some a.length_elimination.symm)
  | @grammarToPushdown g _ =>
    exact documented_of_tells rfl g.tells_automatonTrace
      (congrArg some g.length_automatonTrace.symm)

/-- **The trace of a successful conversion documents it**, whatever its kind and its input. -/
theorem run_documented (c : Conversion) (report : Report) (h : c.run = .ok report) :
    c.Documented report :=
  (gives_of_run h).documented

/-- The hypothesis of `run_documented` is satisfiable, also by a conversion with two halves. -/
theorem run_documented_star :
    ∃ report, (regexToDfa "a*").run = .ok report ∧ (regexToDfa "a*").Documented report := by
  have hread : (regexToDfa "a*").refusal? = none := rfl
  obtain ⟨report, hrun⟩ := exists_run_of_refusal?_eq_none hread
  exact ⟨report, hrun, run_documented _ report hrun⟩

end Conversion
end LanguageForms
