/-
# Every step of the elimination shows an automaton for the same language

The entries of the trace show the automata that the eliminations lead to, one
after the other (`get?_eliminateAll`), and each of them represents the automaton
that the elimination is about (`represents_eliminateAll`).
-/
import LanguageForms.Proofs.Generalized.Language

namespace LanguageForms
namespace Generalized

variable {g : Generalized} {qs : List State}

/-- The entries show what is left after the first elimination, after the second one, and so on. -/
theorem get?_eliminateAll {k : Nat} (hk : k < qs.length) :
    ∃ e, (g.eliminateAll qs).2[k]? = some e ∧
      e.snapshot = some (.generalized (g.eliminateAll (qs.take (k + 1))).1) := by
  induction qs generalizing g k with
  | nil => cases hk
  | cons s qs ih =>
    cases k with
    | zero => exact ⟨_, rfl, rfl⟩
    | succ k => exact ih (Nat.lt_of_succ_lt_succ hk)

/-- There is one entry for every elimination. -/
theorem length_eliminateAll (g : Generalized) (qs : List State) :
    (g.eliminateAll qs).2.length = qs.length := by
  induction qs generalizing g with
  | nil => rfl
  | cons s qs ih => exact congrArg (· + 1) (ih _)

/-- Every entry shows something. -/
theorem snapshot_ne_none_of_mem_eliminateAll {e : Trace.Entry}
    (he : e ∈ (g.eliminateAll qs).2) : e.snapshot ≠ none := by
  obtain ⟨k, hk⟩ := List.mem_iff_getElem?.1 he
  have hlt : k < qs.length := by
    rw [← length_eliminateAll g qs]
    exact (List.getElem?_eq_some_iff.1 hk).1
  obtain ⟨d, hd, hshown⟩ := get?_eliminateAll (g := g) hlt
  obtain rfl := Option.some.inj (hk.symm.trans hd)
  rw [hshown]
  exact Option.some_ne_none _

/-- Entry `k + 1` shows what is left after `k` eliminations. -/
theorem get?_elimination (a : Automaton) {k : Nat} (hk : k ≤ a.size) :
    ∃ e, a.elimination.2.get? (k + 1) = some e ∧ e.snapshot = some (.generalized
      ((ofAutomaton a).eliminateAll (a.states.toList.take k)).1) := by
  cases k with
  | zero => exact ⟨_, rfl, rfl⟩
  | succ k =>
    obtain ⟨e, he, hshown⟩ := get?_eliminateAll (g := ofAutomaton a) hk
    refine ⟨e, ?_, hshown⟩
    -- two entries come first, the opening and the automaton with the new states
    show (((ofAutomaton a).eliminateAll a.states.toList).2 ++ [_])[k]? = some e
    rw [List.getElem?_append_left (List.getElem?_eq_some_iff.1 he).1]
    exact he

end Generalized

namespace Automaton

/-- **Every step of the elimination shows an automaton for the same language.**  The new start
state and the new accepting state are the same in all steps, and after `i - 1` eliminations
they stand around the states of the automaton without the first `i - 1`. -/
theorem toRegex_steps_represent (a : Automaton) (h : a.check = .ok ()) :
    ∃ outcome trace start accept, a.toRegex = .ok (outcome, trace) ∧
      ∀ i, 1 ≤ i → i ≤ a.size + 1 → ∃ e g, trace.get? i = some e ∧
        e.snapshot = some (.generalized g) ∧ g.start = start ∧ g.accept = accept ∧
          g.Represents a (a.states.toList.drop (i - 1)) := by
  have hwf : a.WellFormed := check_eq_ok_iff.1 h
  have hok : a.toRegex = .ok (a.elimination.1, a.elimination.2) := by
    rw [toRegex, defect?_eq_none_iff.2 hwf]
  refine ⟨_, _, (Generalized.ofAutomaton a).start, (Generalized.ofAutomaton a).accept, hok,
    fun i hi hle => ?_⟩
  obtain ⟨k, rfl⟩ := Nat.exists_eq_add_of_le' hi
  obtain ⟨e, he, hshown⟩ := Generalized.get?_elimination a (Nat.le_of_succ_le_succ hle)
  exact ⟨e, _, he, hshown, Generalized.start_eliminateAll _, Generalized.accept_eliminateAll _,
    Generalized.represents_eliminateAll hwf (List.take_append_drop k _).symm⟩

/-- The hypothesis of `toRegex_steps_represent` is satisfiable by an automaton whose states have
the names that new states would get. -/
theorem toRegex_steps_entangled :
    entangled.check = .ok () ∧ ∃ outcome trace start accept,
      entangled.toRegex = .ok (outcome, trace) ∧
        ∀ i, 1 ≤ i → i ≤ entangled.size + 1 → ∃ e g, trace.get? i = some e ∧
          e.snapshot = some (.generalized g) ∧ g.start = start ∧ g.accept = accept ∧
            g.Represents entangled (entangled.states.toList.drop (i - 1)) :=
  ⟨rfl, toRegex_steps_represent entangled rfl⟩

end Automaton
end LanguageForms
