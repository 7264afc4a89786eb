/-
# The expression of an automaton describes its language

When all states are eliminated, only the new start state and the new accepting
state are left.  The only edge that can be left leads from the one to the other,
a path between the two is this edge (`path_iff_edge`), and so the edge reads the
words that the automaton accepts (`Represents.edge_iff`).
-/
import LanguageForms.Proofs.Generalized.Represents

namespace LanguageForms
namespace Generalized

variable {g : Generalized} {a : Automaton} {p q : State} {w : List Char}

/-- If all edges lead from one state to another one, so does every path between the two, and it
has one edge. -/
theorem path_iff_edge (hne : p ≠ q) (h : g.Joins (· = p) (· = q)) :
    g.Path p w q ↔ g.Edge p w q := by
  constructor
  · intro hpath
    obtain ⟨heq, -⟩ | ⟨m, u, v, rfl, he, hrest⟩ := path_iff.1 hpath
    · exact absurd heq hne
    · obtain rfl := (h p u m he).2
      obtain ⟨-, rfl⟩ | ⟨m', x, y, rfl, hnext, -⟩ := path_iff.1 hrest
      · rwa [List.append_nil]
      · exact absurd (h m x m' hnext).1.symm hne
  · exact .ofEdge

/-- When all states are eliminated, an edge leads from the new start state to the new accepting
state. -/
theorem Represents.ends_of_edge? (h : g.Represents a []) {r : Regex} (hr : g.edge? p q = some r) :
    p = g.start ∧ q = g.accept := by
  have hmem : ∀ x ∈ g.states, x = g.start ∨ x = g.accept := by
    intro x hx
    rw [DistinctList.mem_iff, h.states] at hx
    exact (List.mem_cons.1 hx).imp_right List.mem_singleton.1
  obtain ⟨hp, hpne⟩ := h.source p q r hr
  obtain ⟨hq, hqne⟩ := h.target p q r hr
  exact ⟨(hmem p hp).resolve_right hpne, (hmem q hq).resolve_left hqne⟩

/-- **What is left in the end** is at most one edge between the new states, which reads the words
that the automaton accepts. -/
theorem Represents.edge_iff (h : g.Represents a []) :
    g.Edge g.start w g.accept ↔ a.accepts w = true := by
  have hends : g.Joins (· = g.start) (· = g.accept) :=
    joins_iff.2 fun p q r hr => h.ends_of_edge? hr
  rw [← path_iff_edge h.start_ne_accept hends]
  exact h.language w

end Generalized

namespace Automaton

/-- The expression that the elimination finds, if it finds one, describes the language. -/
theorem exists_answer_iff {a : Automaton} (h : a.WellFormed) {w : List Char} :
    (∃ r, a.elimination.1 = some r ∧ r.Matches w) ↔ a.accepts w = true := by
  have hend := Generalized.represents_eliminateAll h (List.append_nil _).symm
  rw [← hend.edge_iff]
  exact Iff.rfl

/-- **State elimination preserves the language.**  An automaton whose parts fit together always
has an answer; the answer is that there is no expression exactly if no word is accepted, and an
expression describes exactly the accepted words. -/
theorem toRegex_preserves_language (a : Automaton) (h : a.check = .ok ()) :
    ∃ outcome trace, a.toRegex = .ok (outcome, trace) ∧
      (outcome = none ↔ ∀ w, a.accepts w = false) ∧
      ∀ r, outcome = some r → ∀ w, r.Matches w ↔ a.accepts w = true := by
  have hwf : a.WellFormed := check_eq_ok_iff.1 h
  have hok : a.toRegex = .ok (a.elimination.1, a.elimination.2) := by
    rw [toRegex, defect?_eq_none_iff.2 hwf]
  refine ⟨_, _, hok, ⟨fun hnone w => ?_, fun hempty => ?_⟩, fun r hr w => ?_⟩
  · rw [Bool.eq_false_iff]
    intro hw
    obtain ⟨r, hr, -⟩ := (exists_answer_iff hwf).2 hw
    rw [hnone] at hr
    cases hr
  · cases hr : a.elimination.1 with
    | none => rfl
    | some r =>
      obtain ⟨w, hw⟩ := Regex.exists_matches r
      have haccepts := (exists_answer_iff hwf).1 ⟨r, hr, hw⟩
      rw [hempty w] at haccepts
      cases haccepts
  · rw [← exists_answer_iff hwf, hr]
    constructor
    · exact fun hw => ⟨r, rfl, hw⟩
    · rintro ⟨s, hs, hw⟩
      rwa [Option.some.inj hs]

/-- An automaton whose states have the names that new states would get, with a circle of
transitions that read nothing, a loop, parallel transitions and a state that is never reached. -/
def entangled : Automaton where
  kind := .nondeterministic
  states := .ofList [⟨"start"⟩, ⟨"accept"⟩, ⟨"start'"⟩]
  alphabet := .ofList ['a', 'b']
  transitions := .ofList [⟨⟨"start"⟩, .epsilon, ⟨"accept"⟩⟩, ⟨⟨"accept"⟩, .epsilon, ⟨"start"⟩⟩,
    ⟨⟨"start"⟩, .symbol 'a', ⟨"start"⟩⟩, ⟨⟨"start"⟩, .symbol 'b', ⟨"accept"⟩⟩,
    ⟨⟨"start'"⟩, .symbol 'b', ⟨"accept"⟩⟩]
  start := ⟨"start"⟩
  accepting := .ofList [⟨"accept"⟩]

/-- The hypothesis of `toRegex_preserves_language` is satisfiable. -/
theorem toRegex_entangled :
    entangled.check = .ok () ∧ ∃ outcome trace, entangled.toRegex = .ok (outcome, trace) ∧
      (outcome = none ↔ ∀ w, entangled.accepts w = false) ∧
      ∀ r, outcome = some r → ∀ w, r.Matches w ↔ entangled.accepts w = true :=
  ⟨rfl, toRegex_preserves_language entangled rfl⟩

end Automaton
end LanguageForms
