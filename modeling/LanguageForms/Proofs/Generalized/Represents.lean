/-
# What the elimination keeps

`Generalized.Represents g a rest` is what holds of a generalized automaton on the
way from an automaton `a` to its expression: a new start state and a new accepting
state around those states of `a` that are still to be eliminated, edges between
these states only, none into the new start and none out of the new accepting
state, and the words of `a` between the two.

It holds of the automaton that the elimination begins with
(`represents_ofAutomaton`), the elimination of a state keeps it
(`Represents.eliminate`), and so it holds after any number of them
(`represents_eliminateAll`).
-/
import LanguageForms.Generalized.Elimination
import LanguageForms.Proofs.Automaton.FreshName
import LanguageForms.Proofs.Automaton.Run
import LanguageForms.Proofs.Generalized.Elimination
import Mathlib.Data.List.Nodup

namespace LanguageForms

/-- Taking out a member leaves what is listed before it and behind it. -/
theorem DistinctList.toList_erase {α : Type} [DecidableEq α] {s : DistinctList α} {a : α}
    {l m : List α} (h : s.toList = l ++ a :: m) : (s.erase a).toList = l ++ m := by
  have hnodup : (l ++ a :: m).Nodup := h ▸ s.nodup
  rw [List.nodup_middle, List.nodup_cons] at hnodup
  have hkept : ∀ x ∈ l ++ m, decide (x ≠ a) = true := fun x hx =>
    decide_eq_true fun heq => hnodup.1 (heq ▸ hx)
  obtain ⟨hl, hm⟩ := List.forall_mem_append.1 hkept
  have hout : ¬ decide (a ≠ a) = true := fun ha => of_decide_eq_true ha rfl
  show s.toList.filter (fun x => decide (x ≠ a)) = l ++ m
  rw [h, List.filter_append, List.filter_cons, if_neg hout, List.filter_eq_self.2 hl,
    List.filter_eq_self.2 hm]

namespace Generalized

/-- Edges only leave states with the first property and only enter states with the second. -/
def Joins (g : Generalized) (P Q : State → Prop) : Prop :=
  ∀ p w q, g.Edge p w q → P p ∧ Q q

/-- Between a new start state and a new accepting state there are the states that are left of an
automaton, and its words. -/
structure Represents (g : Generalized) (a : Automaton) (rest : List State) : Prop where
  states : g.states.toList = g.start :: rest ++ [g.accept]
  start_ne_accept : g.start ≠ g.accept
  start_not_mem : ¬ g.start ∈ a.states
  accept_not_mem : ¬ g.accept ∈ a.states
  source : ∀ p q r, g.edge? p q = some r → p ∈ g.states ∧ p ≠ g.accept
  target : ∀ p q r, g.edge? p q = some r → q ∈ g.states ∧ q ≠ g.start
  language : ∀ w, g.Recognizes w ↔ a.accepts w = true

variable {g : Generalized} {a : Automaton} {p q s : State} {w : List Char}
  {qs rest : List State} {P Q : State → Prop}

/-! ### The parts of an automaton after an elimination -/

/-- Adding edges keeps the start state. -/
@[simp] theorem start_addEdges (l : List (State × State × Regex)) :
    (g.addEdges l).1.start = g.start := by
  induction l generalizing g with
  | nil => rfl
  | cons e l ih => exact ih

/-- Adding edges keeps the accepting state. -/
@[simp] theorem accept_addEdges (l : List (State × State × Regex)) :
    (g.addEdges l).1.accept = g.accept := by
  induction l generalizing g with
  | nil => rfl
  | cons e l ih => exact ih

/-- Eliminating states keeps the start state. -/
theorem start_eliminateAll (qs : List State) : (g.eliminateAll qs).1.start = g.start := by
  induction qs generalizing g with
  | nil => rfl
  | cons s qs ih => exact ih.trans (start_addEdges _)

/-- Eliminating states keeps the accepting state. -/
theorem accept_eliminateAll (qs : List State) : (g.eliminateAll qs).1.accept = g.accept := by
  induction qs generalizing g with
  | nil => rfl
  | cons s qs ih => exact ih.trans (accept_addEdges _)

/-- Adding edges keeps the states. -/
theorem states_addEdges (l : List (State × State × Regex)) :
    (g.addEdges l).1.states = g.states := by
  induction l generalizing g with
  | nil => rfl
  | cons e l ih => exact ih

/-- Eliminating a state takes it out of the states. -/
theorem states_eliminate : (g.eliminate s).1.states = g.states.erase s :=
  states_addEdges _

/-- Eliminating a state keeps the start state. -/
theorem start_eliminate : (g.eliminate s).1.start = g.start :=
  start_addEdges _

/-- Eliminating a state keeps the accepting state. -/
theorem accept_eliminate : (g.eliminate s).1.accept = g.accept :=
  accept_addEdges _

/-- An elimination adds no state that edges leave or enter, and takes one away. -/
theorem Joins.eliminate (h : g.Joins P Q) :
    (g.eliminate s).1.Joins (fun p => P p ∧ p ≠ s) (fun q => Q q ∧ q ≠ s) := by
  intro p w q he
  obtain ⟨hp, hq, he | ⟨u, v, x, -, hinto, -, hout⟩⟩ := edge_eliminate.1 he
  · obtain ⟨hP, hQ⟩ := h p w q he
    exact ⟨⟨hP, hp⟩, ⟨hQ, hq⟩⟩
  · exact ⟨⟨(h p u s hinto).1, hp⟩, ⟨(h s x q hout).2, hq⟩⟩

/-- Where the edges lead does not depend on the words that they read. -/
theorem joins_iff : g.Joins P Q ↔ ∀ p q r, g.edge? p q = some r → P p ∧ Q q := by
  constructor
  · intro h p q r hr
    obtain ⟨w, hw⟩ := r.exists_matches
    exact h p w q ⟨r, hr, hw⟩
  · rintro h p w q ⟨r, hr, -⟩
    exact h p q r hr

/-! ### The automaton between a new start and a new accepting state -/

/-- The new start state has a fresh name. -/
theorem start_ofAutomaton (a : Automaton) :
    (ofAutomaton a).start = Automaton.freshState a.states.toList "start" :=
  start_addEdges _

/-- The new accepting state has a fresh name. -/
theorem accept_ofAutomaton (a : Automaton) :
    (ofAutomaton a).accept = Automaton.freshState a.states.toList "accept" :=
  accept_addEdges _

/-- The new start state is no state of the automaton. -/
theorem start_ofAutomaton_not_mem (a : Automaton) : ¬ (ofAutomaton a).start ∈ a.states := by
  rw [start_ofAutomaton]
  exact Automaton.freshState_not_mem _ _

/-- The new accepting state is no state of the automaton. -/
theorem accept_ofAutomaton_not_mem (a : Automaton) : ¬ (ofAutomaton a).accept ∈ a.states := by
  rw [accept_ofAutomaton]
  exact Automaton.freshState_not_mem _ _

/-- The two new states differ, since their names begin with different letters. -/
theorem start_ofAutomaton_ne_accept (a : Automaton) :
    (ofAutomaton a).start ≠ (ofAutomaton a).accept := by
  rw [start_ofAutomaton, accept_ofAutomaton]
  intro heq
  obtain ⟨m, hm⟩ := Automaton.exists_name_freshState a.states.toList "start"
  obtain ⟨n, hn⟩ := Automaton.exists_name_freshState a.states.toList "accept"
  have hnames : "start" ++ Automaton.primes m = "accept" ++ Automaton.primes n := by
    rw [← hm, ← hn, heq]
  have hchars := congrArg String.toList hnames
  rw [String.toList_append, String.toList_append] at hchars
  exact absurd (List.cons.inj hchars).1 (by decide)

/-- The expression of a label reads what the label spells. -/
theorem matches_toRegex_iff {l : Label} : l.toRegex.Matches w ↔ w = l.spelled := by
  cases l with
  | symbol c => exact Regex.matches_symbol_iff
  | epsilon => exact Regex.matches_epsilon_iff

/-- The edges of the automaton with its new states: one into the old start state, the
transitions, and those out of the accepting states. -/
theorem edge_ofAutomaton :
    (ofAutomaton a).Edge p w q ↔
      (p = (ofAutomaton a).start ∧ q = a.start ∧ w = []) ∨
        (∃ l, ⟨p, l, q⟩ ∈ a.transitions ∧ w = l.spelled) ∨
          (p ∈ a.accepting ∧ q = (ofAutomaton a).accept ∧ w = []) := by
  rw [start_ofAutomaton, accept_ofAutomaton, ofAutomaton, edge_addEdges]
  have hnone : ¬ Edge ⟨.ofList (Automaton.freshState a.states.toList "start" ::
      a.states.toList ++ [Automaton.freshState a.states.toList "accept"]),
      Automaton.freshState a.states.toList "start",
      Automaton.freshState a.states.toList "accept", .empty⟩ p w q := by
    rintro ⟨e, he, -⟩
    cases he
  rw [or_iff_right hnone]
  simp only [initialEdges, List.mem_cons, List.mem_append, List.mem_map]
  constructor
  · rintro ⟨r, (heq | ⟨⟨s, l, t⟩, ht, heq⟩) | ⟨s, hs, heq⟩, hw⟩
    · obtain ⟨rfl, rfl, rfl⟩ : p = _ ∧ q = _ ∧ r = _ := by simpa using heq
      exact .inl ⟨rfl, rfl, Regex.matches_epsilon_iff.1 hw⟩
    · obtain ⟨rfl, rfl, rfl⟩ : s = p ∧ t = q ∧ l.toRegex = r := by simpa using heq
      exact .inr (.inl ⟨l, ht, matches_toRegex_iff.1 hw⟩)
    · obtain ⟨rfl, rfl, rfl⟩ : s = p ∧ _ = q ∧ _ = r := by simpa using heq
      exact .inr (.inr ⟨hs, rfl, Regex.matches_epsilon_iff.1 hw⟩)
  · rintro (⟨rfl, rfl, rfl⟩ | ⟨l, ht, rfl⟩ | ⟨hp, rfl, rfl⟩)
    · exact ⟨.epsilon, .inl (.inl rfl), .epsilon⟩
    · exact ⟨l.toRegex, .inl (.inr ⟨_, ht, rfl⟩), matches_toRegex_iff.2 rfl⟩
    · exact ⟨.epsilon, .inr ⟨p, hp, rfl⟩, .epsilon⟩

/-- No edge enters the new start state or leaves the new accepting state. -/
theorem joins_ofAutomaton (h : a.WellFormed) :
    (ofAutomaton a).Joins (fun p => p = (ofAutomaton a).start ∨ p ∈ a.states)
      (fun q => q = (ofAutomaton a).accept ∨ q ∈ a.states) := by
  intro p w q he
  rcases edge_ofAutomaton.1 he with ⟨rfl, rfl, -⟩ | ⟨l, ht, -⟩ | ⟨hp, rfl, -⟩
  · exact ⟨.inl rfl, .inr h.start⟩
  · exact ⟨.inr (h.source _ ht), .inr (h.target _ ht)⟩
  · exact ⟨.inr (h.accepting p hp), .inl rfl⟩

/-- A path of the automaton is a path of the automaton with its new states. -/
theorem path_ofAutomaton_of_path (h : a.Path p w q) : (ofAutomaton a).Path p w q := by
  induction h with
  | nil q => exact .nil q
  | @cons p m q l u ht _ ih => exact .step (edge_ofAutomaton.2 (.inr (.inl ⟨l, ht, rfl⟩))) ih

/-- A path from an old state to the new accepting state goes through an old accepting state. -/
theorem exists_path_of_path_ofAutomaton (h : a.WellFormed)
    (hpath : (ofAutomaton a).Path p w q) (hp : p ∈ a.states) (hq : q = (ofAutomaton a).accept) :
    ∃ m ∈ a.accepting, a.Path p w m := by
  induction hpath with
  | nil q =>
    subst hq
    exact absurd hp (accept_ofAutomaton_not_mem a)
  | @cons p m q e u v he hu hrest ih =>
    rcases edge_ofAutomaton.1 ⟨e, he, hu⟩ with ⟨rfl, -, -⟩ | ⟨l, ht, rfl⟩ | ⟨hacc, rfl, rfl⟩
    · exact absurd hp (start_ofAutomaton_not_mem a)
    · obtain ⟨n, hn, hpath⟩ := ih (h.target _ ht) hq
      exact ⟨n, hn, .cons ht hpath⟩
    · -- nothing leaves the new accepting state, so the path ends here
      obtain ⟨-, rfl⟩ | ⟨n, x, y, -, hnext, -⟩ := path_iff.1 hrest
      · exact ⟨p, hacc, .nil p⟩
      · rcases (joins_ofAutomaton h _ x n hnext).1 with heq | hmem
        · exact absurd heq.symm (start_ofAutomaton_ne_accept a)
        · exact absurd hmem (accept_ofAutomaton_not_mem a)

/-- **The new states change nothing**: between them the words are those that the automaton
accepts. -/
theorem recognizes_ofAutomaton_iff (h : a.WellFormed) :
    (ofAutomaton a).Recognizes w ↔ a.accepts w = true := by
  rw [Automaton.accepts_eq_true_iff]
  simp only [Automaton.mem_after_iff]
  constructor
  · intro hpath
    obtain ⟨heq, -⟩ | ⟨m, u, v, rfl, he, hrest⟩ := path_iff.1 hpath
    · exact absurd heq (start_ofAutomaton_ne_accept a)
    · rcases edge_ofAutomaton.1 he with ⟨-, rfl, rfl⟩ | ⟨l, ht, -⟩ | ⟨hacc, -, -⟩
      · exact exists_path_of_path_ofAutomaton h hrest h.start rfl
      · exact absurd (h.source _ ht) (start_ofAutomaton_not_mem a)
      · exact absurd (h.accepting _ hacc) (start_ofAutomaton_not_mem a)
  · rintro ⟨q, hq, hpath⟩
    have hinto : (ofAutomaton a).Edge (ofAutomaton a).start [] a.start :=
      edge_ofAutomaton.2 (.inl ⟨rfl, rfl, rfl⟩)
    have hout : (ofAutomaton a).Edge q [] (ofAutomaton a).accept :=
      edge_ofAutomaton.2 (.inr (.inr ⟨hq, rfl, rfl⟩))
    have hwhole := (path_ofAutomaton_of_path hpath).append (.ofEdge hout)
    rw [List.append_nil] at hwhole
    exact .step hinto hwhole

/-! ### The elimination -/

/-- The new start state comes first, the new accepting state last. -/
theorem toList_states_ofAutomaton (a : Automaton) : (ofAutomaton a).states.toList =
    (ofAutomaton a).start :: a.states.toList ++ [(ofAutomaton a).accept] := by
  have hinner : (a.states.toList ++ [(ofAutomaton a).accept]).Nodup := by
    rw [← List.concat_eq_append]
    exact a.states.nodup.concat (accept_ofAutomaton_not_mem a)
  have hstart : ¬ (ofAutomaton a).start ∈ a.states.toList ++ [(ofAutomaton a).accept] := by
    rw [List.mem_append, List.mem_singleton, not_or]
    exact ⟨start_ofAutomaton_not_mem a, start_ofAutomaton_ne_accept a⟩
  have hnodup := List.nodup_cons.2 ⟨hstart, hinner⟩
  rw [start_ofAutomaton, accept_ofAutomaton] at hnodup ⊢
  rw [ofAutomaton, states_addEdges]
  exact DistinctList.toList_insertAll_of_nodup (s := .empty) hnodup

/-- The elimination begins with the new states around all states. -/
theorem represents_ofAutomaton (h : a.WellFormed) :
    (ofAutomaton a).Represents a a.states.toList where
  states := toList_states_ofAutomaton a
  start_ne_accept := start_ofAutomaton_ne_accept a
  start_not_mem := start_ofAutomaton_not_mem a
  accept_not_mem := accept_ofAutomaton_not_mem a
  source p q r hr := by
    rw [DistinctList.mem_iff, toList_states_ofAutomaton]
    rcases (joins_iff.1 (joins_ofAutomaton h) p q r hr).1 with rfl | hp
    · exact ⟨List.mem_cons_self .., start_ofAutomaton_ne_accept a⟩
    · refine ⟨List.mem_cons_of_mem _ (List.mem_append_left _ hp), ?_⟩
      rintro rfl
      exact accept_ofAutomaton_not_mem a hp
  target p q r hr := by
    rw [DistinctList.mem_iff, toList_states_ofAutomaton]
    rcases (joins_iff.1 (joins_ofAutomaton h) p q r hr).2 with rfl | hq
    · exact ⟨List.mem_append_right _ (List.mem_singleton.2 rfl),
        (start_ofAutomaton_ne_accept a).symm⟩
    · refine ⟨List.mem_cons_of_mem _ (List.mem_append_left _ hq), ?_⟩
      rintro rfl
      exact start_ofAutomaton_not_mem a hq
  language w := recognizes_ofAutomaton_iff h

/-- No edge enters the start state or leaves the accepting state. -/
theorem Represents.joins (h : g.Represents a rest) :
    g.Joins (fun p => p ∈ g.states ∧ p ≠ g.accept) (fun q => q ∈ g.states ∧ q ≠ g.start) :=
  joins_iff.2 fun p q r hr => ⟨h.source p q r hr, h.target p q r hr⟩

/-- **The elimination of a state** leaves an automaton with the other states and the same words. -/
theorem Represents.eliminate (h : g.Represents a (s :: rest)) :
    (g.eliminate s).1.Represents a rest := by
  have hnodup : (g.start :: s :: rest ++ [g.accept]).Nodup := h.states ▸ g.states.nodup
  have hstart : g.start ≠ s := fun heq =>
    (List.nodup_cons.1 hnodup).1 (heq ▸ List.mem_cons_self ..)
  have haccept : g.accept ≠ s := fun heq =>
    (List.nodup_append.1 hnodup).2.2 s (List.mem_cons_of_mem _ (List.mem_cons_self ..)) g.accept
      (List.mem_singleton.2 rfl) heq.symm
  have hjoins := joins_iff.1 (h.joins.eliminate (s := s))
  constructor
  case states =>
    rw [states_eliminate, start_eliminate, accept_eliminate]
    exact DistinctList.toList_erase (l := [g.start]) h.states
  case start_ne_accept =>
    rw [start_eliminate, accept_eliminate]
    exact h.start_ne_accept
  case start_not_mem =>
    rw [start_eliminate]
    exact h.start_not_mem
  case accept_not_mem =>
    rw [accept_eliminate]
    exact h.accept_not_mem
  case source =>
    intro p q r hr
    obtain ⟨⟨⟨hp, hne⟩, hps⟩, -⟩ := hjoins p q r hr
    rw [states_eliminate, accept_eliminate, DistinctList.mem_erase]
    exact ⟨⟨hp, hps⟩, hne⟩
  case target =>
    intro p q r hr
    obtain ⟨-, ⟨hq, hne⟩, hqs⟩ := hjoins p q r hr
    rw [states_eliminate, start_eliminate, DistinctList.mem_erase]
    exact ⟨⟨hq, hqs⟩, hne⟩
  case language =>
    intro w
    rw [Recognizes, start_eliminate, accept_eliminate, path_eliminate_iff hstart haccept]
    exact h.language w

/-- **The elimination of several states** leaves a representation with the others. -/
theorem Represents.eliminateAll (h : g.Represents a (qs ++ rest)) :
    (g.eliminateAll qs).1.Represents a rest := by
  induction qs generalizing g with
  | nil => exact h
  | cons s qs ih => exact ih h.eliminate

/-- **After any number of eliminations** the states that are left are those behind the eliminated
ones. -/
theorem represents_eliminateAll (h : a.WellFormed) (hqs : a.states.toList = qs ++ rest) :
    ((ofAutomaton a).eliminateAll qs).1.Represents a rest := by
  have hbegin := represents_ofAutomaton h
  rw [hqs] at hbegin
  exact hbegin.eliminateAll

end Generalized
end LanguageForms
