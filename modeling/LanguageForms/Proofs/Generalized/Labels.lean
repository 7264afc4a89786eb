/-
# The expressions on the edges stay reduced

Edges get their expressions by union, concatenation and star only, and at the
beginning they carry the labels of transitions and `ε`.  So a property that these
have and that the three builders keep holds on all edges of the automaton that the
elimination begins with (`labelled_ofAutomaton`), an elimination keeps it
(`Labelled.eliminate`), and so it holds on all edges in every step of the trace
(`labelled_of_mem_entries`).

Being reduced and having no symbol that labels no transition is such a property, and
`toRegex_labels_reduced` is what it means for the steps and for the result.
-/
import LanguageForms.Proofs.Generalized.Language
import LanguageForms.Proofs.Regex.Reduced

namespace LanguageForms
namespace Generalized

/-- All edges carry expressions with the property. -/
def Labelled (g : Generalized) (P : Regex → Prop) : Prop :=
  ∀ p q r, g.edge? p q = some r → P r

variable {g : Generalized} {P : Regex → Prop} {p q s : State} {r : Regex}
  {l : List (State × State × Regex)}

/-! ### One elimination -/

/-- An expression with the property can be added to any edge. -/
theorem Labelled.addEdge (hP : Regex.Kept P) (h : g.Labelled P) (hr : P r) :
    (g.addEdge p q r).Labelled P := by
  intro p' q' r' hr'
  rw [edge?_addEdge] at hr'
  split at hr'
  · obtain rfl := Option.some.inj hr'
    rw [merged]
    split
    · next old hold => exact hP.unite (h p q old hold) hr
    · exact hr
  · exact h p' q' r' hr'

/-- Adding expressions with the property to edges keeps it. -/
theorem Labelled.addEdges (hP : Regex.Kept P) (h : g.Labelled P) (hl : ∀ e ∈ l, P e.2.2) :
    (g.addEdges l).1.Labelled P := by
  induction l generalizing g with
  | nil => exact h
  | cons e l ih =>
    obtain ⟨he, hl⟩ := List.forall_mem_cons.1 hl
    exact ih (h.addEdge hP he) hl

/-- Removing a state keeps the property of the edges that are left. -/
theorem Labelled.remove (h : g.Labelled P) : (g.remove s).Labelled P := by
  intro p q r hr
  rw [edge?_remove] at hr
  split at hr
  · exact h p q r hr
  · cases hr

/-- A way into a state, around its loop and out of it has the property if the edges have it. -/
theorem Labelled.detours (hP : Regex.Kept P) (h : g.Labelled P) : ∀ e ∈ g.detours s, P e.2.2 := by
  rintro ⟨p, q, r⟩ he
  obtain ⟨-, -, into, out, hinto, hout, rfl⟩ := mem_detours.1 he
  have hin : P into := h p s into hinto
  have hback : P out := h s q out hout
  cases hloop : g.edge? s s with
  | none => exact hP.append hin hback
  | some loop => exact hP.append (hP.append hin (hP.iterate (h s s loop hloop))) hback

/-- **The elimination of a state** keeps the property on all edges. -/
theorem Labelled.eliminate (hP : Regex.Kept P) (h : g.Labelled P) :
    (g.eliminate s).1.Labelled P :=
  h.remove.addEdges hP (h.detours hP)

/-! ### All eliminations -/

/-- The elimination of any number of states keeps the property. -/
theorem Labelled.eliminateAll (hP : Regex.Kept P) (h : g.Labelled P) (qs : List State) :
    (g.eliminateAll qs).1.Labelled P := by
  induction qs generalizing g with
  | nil => exact h
  | cons s qs ih => exact ih (h.eliminate hP)

/-- Every step on the way shows an automaton with the property on all edges. -/
theorem Labelled.of_mem_eliminateAll (hP : Regex.Kept P) (h : g.Labelled P) {qs : List State}
    {e : Trace.Entry} {g' : Generalized} (he : e ∈ (g.eliminateAll qs).2)
    (hshown : e.snapshot = some (.generalized g')) : g'.Labelled P := by
  induction qs generalizing g with
  | nil => exact absurd he List.not_mem_nil
  | cons s qs ih =>
    have hnext : (g.eliminate s).1.Labelled P := h.eliminate hP
    rcases List.mem_cons.1 he with rfl | he
    · cases hshown
      exact hnext
    · exact ih hnext he

variable {a : Automaton}

/-- **At the beginning** the edges carry labels of transitions and `ε`, or unions of these. -/
theorem labelled_ofAutomaton (hP : Regex.Kept P) (hepsilon : P .epsilon)
    (hlabel : ∀ t ∈ a.transitions, P t.label.toRegex) : (ofAutomaton a).Labelled P := by
  refine Labelled.addEdges hP (fun p q r hr => by cases hr) fun e he => ?_
  rcases List.mem_append.1 he with he | he
  · rcases List.mem_cons.1 he with rfl | he
    · exact hepsilon
    · obtain ⟨t, ht, rfl⟩ := List.mem_map.1 he
      exact hlabel t ht
  · obtain ⟨q, -, rfl⟩ := List.mem_map.1 he
    exact hepsilon

/-- **In every step** that shows an automaton, all edges have the property. -/
theorem labelled_of_mem_entries (hP : Regex.Kept P) (h : (ofAutomaton a).Labelled P)
    {e : Trace.Entry} {g : Generalized} (he : e ∈ a.elimination.2.entries)
    (hshown : e.snapshot = some (.generalized g)) : g.Labelled P := by
  have hlast : ((ofAutomaton a).eliminateAll a.states.toList).1.Labelled P := h.eliminateAll hP _
  rcases List.mem_cons.1 he with rfl | he
  · cases hshown
  · rcases List.mem_append.1 he with he | he
    · rcases List.mem_cons.1 he with rfl | he
      · cases hshown
        exact h
      · exact h.of_mem_eliminateAll hP he hshown
    · -- the last step shows an automaton only if there is no expression
      rw [List.mem_singleton.1 he, finalEntry] at hshown
      split at hshown
      · cases hshown
      · cases hshown
        exact hlast

end Generalized

namespace Automaton

/-- An expression that is spelled with symbols of transitions and has no redundant node. -/
structure IsReducedLabel (a : Automaton) (r : Regex) : Prop where
  symbols : ∀ c ∈ r.symbols, ∃ p q, ⟨p, .symbol c, q⟩ ∈ a.transitions
  nodes : ∀ n ∈ r.nodes, ¬ n.expression.IsRedundant

variable {a : Automaton} {r : Regex}

/-- A reduced label has no redundant node and only symbols of transitions. -/
theorem isReducedLabel_iff : a.IsReducedLabel r ↔
    r.IsReduced ∧ ∀ c ∈ r.symbols, ∃ p q, ⟨p, .symbol c, q⟩ ∈ a.transitions := by
  rw [Regex.isReduced_iff_nodes]
  exact ⟨fun h => ⟨h.nodes, h.symbols⟩, fun h => ⟨h.2, h.1⟩⟩

/-- Union, concatenation and star keep labels reduced. -/
theorem kept_isReducedLabel (a : Automaton) : Regex.Kept a.IsReducedLabel := by
  have hboth := Regex.kept_isReduced.and
    (Regex.kept_symbols fun c => ∃ p q, ⟨p, .symbol c, q⟩ ∈ a.transitions)
  have heq : a.IsReducedLabel = fun r => r.IsReduced ∧
      ∀ c ∈ r.symbols, ∃ p q, ⟨p, .symbol c, q⟩ ∈ a.transitions :=
    funext fun r => propext isReducedLabel_iff
  exact heq ▸ hboth

/-- The empty word is a reduced label. -/
theorem isReducedLabel_epsilon (a : Automaton) : a.IsReducedLabel .epsilon :=
  isReducedLabel_iff.2 ⟨trivial, fun _ hc => absurd hc List.not_mem_nil⟩

/-- The label of a transition is a reduced label. -/
theorem isReducedLabel_toRegex {t : Transition} (ht : t ∈ a.transitions) :
    a.IsReducedLabel t.label.toRegex := by
  obtain ⟨p, l, q⟩ := t
  cases l with
  | epsilon => exact isReducedLabel_epsilon a
  | symbol c =>
    refine isReducedLabel_iff.2 ⟨trivial, fun d hd => ?_⟩
    obtain rfl := List.mem_singleton.1 hd
    exact ⟨p, q, ht⟩

/-- **The expressions of the elimination are reduced**, on every edge in every step and in the
end, and they are spelled with symbols of transitions. -/
theorem toRegex_labels_reduced (a : Automaton) (h : a.check = .ok ()) :
    ∃ outcome trace, a.toRegex = .ok (outcome, trace) ∧
      (∀ e ∈ trace.entries, ∀ g, e.snapshot = some (.generalized g) →
        ∀ p q r, g.edge? p q = some r → a.IsReducedLabel r) ∧
      ∀ r, outcome = some r → a.IsReducedLabel r := by
  have hok : a.toRegex = .ok (a.elimination.1, a.elimination.2) := by
    rw [toRegex, defect?_eq_none_iff.2 (check_eq_ok_iff.1 h)]
  have hkept := kept_isReducedLabel a
  have hbegin : (Generalized.ofAutomaton a).Labelled a.IsReducedLabel :=
    Generalized.labelled_ofAutomaton hkept (isReducedLabel_epsilon a) fun _ =>
      isReducedLabel_toRegex
  refine ⟨_, _, hok, fun e he g hshown => ?_, fun r hr => ?_⟩
  · exact Generalized.labelled_of_mem_entries hkept hbegin he hshown
  · exact hbegin.eliminateAll hkept a.states.toList _ _ r hr

/-- The hypothesis of `toRegex_labels_reduced` is satisfiable by an automaton whose transitions
are parallel, read nothing, or lead back to where they begin. -/
theorem toRegex_labels_entangled :
    entangled.check = .ok () ∧ ∃ outcome trace, entangled.toRegex = .ok (outcome, trace) ∧
      (∀ e ∈ trace.entries, ∀ g, e.snapshot = some (.generalized g) →
        ∀ p q r, g.edge? p q = some r → entangled.IsReducedLabel r) ∧
      ∀ r, outcome = some r → entangled.IsReducedLabel r :=
  ⟨rfl, toRegex_labels_reduced entangled rfl⟩

end Automaton
end LanguageForms
