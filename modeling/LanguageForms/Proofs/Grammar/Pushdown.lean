/-
# The automaton of a grammar accepts its language

In its main state the automaton works on its stack as a derivation from the left
works on its symbols: a head on top is replaced by a body, and a terminal on top
is read (`step_iff`).  What is left of the word and what is above the end marker
are therefore the two sides of a `Leftmost` derivation (`run_of_leftmost`,
`leftmost_of_run`).

The end marker is no symbol of the grammar, so nothing is left of either side when
it is taken, and taking it is the only way to the accepting state.
-/
import LanguageForms.Proofs.Grammar.Leftmost
import LanguageForms.Proofs.Pushdown.Acceptance
import LanguageForms.Pushdown.OfGrammar

namespace LanguageForms
namespace Grammar

variable {g : Grammar} {u w : List Char}

/-- The moves are the setup, one for each production, one for each terminal, and the last one. -/
theorem mem_moves_automaton {m : Pushdown.Move} :
    m ∈ g.automaton.moves ↔ m = g.setup ∨ (∃ p ∈ g.productions, expand p = m) ∨
      (∃ c ∈ g.terminals, readTerminal c = m) ∨ m = accept := by
  simp only [automaton, withTerminals, withExpansions, withSetup, bare, Pushdown.ofParts,
    Pushdown.add, Pushdown.addAll, List.nil_append, List.append_assoc, List.mem_append,
    List.mem_singleton, List.mem_map, DistinctList.mem_iff]

/-- The automaton has three states. -/
theorem states_automaton :
    g.automaton.states = .ofList [initialState, mainState, finalState] := rfl

/-- **What the automaton of a grammar can do**: put the start symbol on top of the end marker,
replace a head by a body, read a terminal, or take the end marker. -/
inductive Moves (g : Grammar) : Pushdown.Config → Pushdown.Config → Prop where
  | setup (w s : List Char) :
      Moves g ⟨initialState, w, s⟩ ⟨mainState, w, g.start :: endMarker :: s⟩
  | expand {p : Production} (w s : List Char) :
      p ∈ g.productions → Moves g ⟨mainState, w, p.head :: s⟩ ⟨mainState, w, p.body ++ s⟩
  | read {c : Char} (w s : List Char) :
      c ∈ g.terminals → Moves g ⟨mainState, c :: w, c :: s⟩ ⟨mainState, w, s⟩
  | accept (w s : List Char) : Moves g ⟨mainState, w, endMarker :: s⟩ ⟨finalState, w, s⟩

/-- A step of the automaton is one of the four sorts of moves. -/
theorem step_iff {c d : Pushdown.Config} : g.automaton.Step c d ↔ g.Moves c d := by
  have hinitial : initialState ∈ g.automaton.states := by rw [states_automaton]; decide
  have hmain : mainState ∈ g.automaton.states := by rw [states_automaton]; decide
  have hfinal : finalState ∈ g.automaton.states := by rw [states_automaton]; decide
  constructor
  · intro h
    cases h with
    | @fire m unread stack hm _ _ =>
      rcases mem_moves_automaton.1 hm with rfl | ⟨p, hp, rfl⟩ | ⟨c, hc, rfl⟩ | rfl
      · exact .setup unread stack
      · exact .expand unread stack hp
      · exact .read unread stack hc
      · exact .accept unread stack
  · intro h
    cases h with
    | setup w s =>
      exact .fire w s (mem_moves_automaton.2 (.inl rfl)) hinitial hmain
    | @expand p w s hp =>
      exact .fire w s (mem_moves_automaton.2 (.inr (.inl ⟨p, hp, rfl⟩))) hmain hmain
    | @read c w s hc =>
      exact .fire w s (mem_moves_automaton.2 (.inr (.inr (.inl ⟨c, hc, rfl⟩)))) hmain hmain
    | accept w s =>
      exact .fire w s (mem_moves_automaton.2 (.inr (.inr (.inr rfl)))) hmain hfinal

/-- A derivation from the left is a run that uses up its symbols and leaves the stack below them
alone. -/
theorem run_of_leftmost (h : g.Leftmost u w) (s : List Char) :
    g.automaton.Run ⟨mainState, w, u ++ s⟩ ⟨mainState, [], s⟩ := by
  induction h with
  | nil => exact .refl _
  | @read c u w hc _ ih => exact .head (step_iff.2 (.read w (u ++ s) hc)) ih
  | @expand p u w hp _ ih =>
    rw [List.append_assoc] at ih
    exact .head (step_iff.2 (.expand w (u ++ s) hp)) ih

/-- The first state is not the main one. -/
theorem initialState_ne_mainState : initialState ≠ mainState := by decide

/-- The first state is not the final one. -/
theorem initialState_ne_finalState : initialState ≠ finalState := by decide

/-- The main state is not the final one. -/
theorem mainState_ne_finalState : mainState ≠ finalState := by decide

/-- All that can be done first is to put the start symbol on top of the end marker. -/
theorem Moves.eq_of_initialState {c d : Pushdown.Config} (h : g.Moves c d)
    (hc : c.state = initialState) : d = ⟨mainState, c.unread, g.start :: endMarker :: c.stack⟩ := by
  cases h with
  | setup => rfl
  | expand => exact absurd hc.symm initialState_ne_mainState
  | read => exact absurd hc.symm initialState_ne_mainState
  | accept => exact absurd hc.symm initialState_ne_mainState

/-- Nothing can be done in the accepting state. -/
theorem Moves.state_ne_finalState {c d : Pushdown.Config} (h : g.Moves c d) :
    c.state ≠ finalState := by
  cases h with
  | setup => exact initialState_ne_finalState
  | expand => exact mainState_ne_finalState
  | read => exact mainState_ne_finalState
  | accept => exact mainState_ne_finalState

/-- No move leaves the final state. -/
theorem eq_of_run_finalState {s : List Char} {d : Pushdown.Config}
    (h : g.automaton.Run ⟨finalState, w, s⟩ d) : d = ⟨finalState, w, s⟩ := by
  cases h with
  | refl => rfl
  | head hstep _ => exact absurd rfl (step_iff.1 hstep).state_ne_finalState

/-- A symbol above the end marker, on top of the stack. -/
theorem exists_eq_cons_of_append_endMarker {c : Char} {s : List Char} (hc : c ≠ endMarker)
    (h : u ++ [endMarker] = c :: s) : ∃ v, u = c :: v ∧ s = v ++ [endMarker] := by
  rcases List.append_eq_cons_iff.1 h with ⟨-, hmark⟩ | hv
  · exact absurd (List.cons.inj hmark).1.symm hc
  · exact hv

/-- The end marker stands in no body. -/
theorem WellFormed.endMarker_not_mem_body (hg : g.WellFormed) {p : Production}
    (hp : p ∈ g.productions) : ¬ endMarker ∈ p.body := fun hmem =>
  (hg.body p hp endMarker hmem).elim hg.nonterminals hg.terminals

/-- A run from the main state that ends in the accepting state with the word read is a derivation
from the left of what is above the end marker. -/
theorem leftmost_of_run (hg : g.WellFormed) {s : List Char} (hu : ¬ endMarker ∈ u)
    (h : g.automaton.Run ⟨mainState, w, u ++ [endMarker]⟩ ⟨finalState, [], s⟩) :
    g.Leftmost u w := by
  generalize hc : (⟨mainState, w, u ++ [endMarker]⟩ : Pushdown.Config) = c at h
  generalize hd : (⟨finalState, [], s⟩ : Pushdown.Config) = d at h
  induction h generalizing u w with
  | refl c =>
    rw [← hd] at hc
    exact absurd (Pushdown.Config.mk.inj hc).1 mainState_ne_finalState
  | head hstep hrest ih =>
    subst hd
    cases step_iff.1 hstep with
    | setup w' s' => exact absurd (Pushdown.Config.mk.inj hc).1.symm initialState_ne_mainState
    | @expand p w' s' hp =>
      obtain ⟨-, rfl, hstack⟩ := Pushdown.Config.mk.inj hc
      have hhead : p.head ≠ endMarker := fun heq => hg.nonterminals (heq ▸ hg.head p hp)
      obtain ⟨v, rfl, rfl⟩ := exists_eq_cons_of_append_endMarker hhead hstack
      have hv : ¬ endMarker ∈ p.body ++ v := by
        rw [List.mem_append, not_or]
        exact ⟨hg.endMarker_not_mem_body hp, fun hmem => hu (List.mem_cons_of_mem _ hmem)⟩
      exact .expand hp (ih hv (by rw [List.append_assoc]) rfl)
    | @read c w' s' ht =>
      obtain ⟨-, rfl, hstack⟩ := Pushdown.Config.mk.inj hc
      have hne : c ≠ endMarker := fun heq => hg.terminals (heq ▸ ht)
      obtain ⟨v, rfl, rfl⟩ := exists_eq_cons_of_append_endMarker hne hstack
      exact .read ht (ih (fun hmem => hu (List.mem_cons_of_mem _ hmem)) rfl rfl)
    | accept w' s' =>
      -- the end marker is on top, so nothing is above it, and the run is over
      obtain ⟨-, rfl, hstack⟩ := Pushdown.Config.mk.inj hc
      obtain ⟨-, rfl, -⟩ := Pushdown.Config.mk.inj (eq_of_run_finalState hrest)
      cases u with
      | nil => exact .nil
      | cons x u =>
        obtain ⟨rfl, -⟩ := List.cons.inj hstack
        exact absurd (List.mem_cons_self ..) hu

/-- **The automaton of a grammar recognizes the words that the grammar generates.** -/
theorem recognizes_automaton_iff (hg : g.WellFormed) :
    g.automaton.Recognizes w ↔ g.Generates w := by
  rw [Generates, ← leftmost_iff_derives]
  constructor
  · rintro ⟨q, s, hrun, hq⟩
    obtain rfl : q = finalState := List.mem_singleton.1 (SortedSet.mem_ofList.1 hq)
    obtain ⟨d, hstep, hrest⟩ := hrun.exists_step initialState_ne_finalState
    obtain rfl := (step_iff.1 hstep).eq_of_initialState rfl
    have hstart : ¬ endMarker ∈ [g.start] := fun hmem =>
      hg.nonterminals (List.mem_singleton.1 hmem ▸ hg.start)
    exact leftmost_of_run hg hstart hrest
  · intro h
    refine ⟨finalState, [], ?_, SortedSet.mem_ofList.2 (List.mem_singleton.2 rfl)⟩
    exact .head (step_iff.2 (.setup w [])) ((run_of_leftmost h [endMarker]).trans
      (.single (step_iff.2 (.accept [] []))))

/-- **The translation to a pushdown automaton preserves the language.**  A grammar without a
defect always has an automaton, and it accepts a word exactly if the word has terminals only and
is derived from the start symbol. -/
theorem toPushdown_preserves_language (g : Grammar) (h : g.defect? = none) :
    ∃ p trace, g.toPushdown = .ok (p, trace) ∧ ∀ w, p.accepts w = true ↔ g.Generates w := by
  have hok : g.toPushdown = .ok (g.automaton, g.automatonTrace) := by rw [toPushdown, h]
  refine ⟨_, _, hok, fun w => ?_⟩
  rw [Pushdown.accepts_iff_exists_run, ← Pushdown.recognizes_iff_exists_run]
  exact recognizes_automaton_iff (defect?_eq_none_iff.1 h)

/-- A grammar that is left recursive and nullable, with a circle of replacements of one symbol by
one symbol, and with a nonterminal that has no productions. -/
def entangled : Grammar where
  nonterminals := .ofList ['S', 'A', 'N']
  terminals := .ofList ['+', 'ε']
  productions := [⟨'S', ['S', '+', 'S']⟩, ⟨'S', ['A']⟩, ⟨'A', ['S']⟩, ⟨'A', []⟩,
    ⟨'A', ['ε', 'N']⟩, ⟨'A', ['ε']⟩]
  start := 'S'

/-- The hypothesis of `toPushdown_preserves_language` is satisfiable. -/
theorem toPushdown_entangled :
    entangled.defect? = none ∧ ∃ p trace, entangled.toPushdown = .ok (p, trace) ∧
      ∀ w, p.accepts w = true ↔ entangled.Generates w :=
  ⟨rfl, toPushdown_preserves_language entangled rfl⟩

end Grammar
end LanguageForms
