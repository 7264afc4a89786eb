/-
# Acceptance is decided exactly

A configuration is represented by its state, a position of the word and the
cells of its stack above the bottom (`lowered`).  A move fires exactly if one of
its rules can be used (`use_of_fire`, `fire_of_use`): a move that takes nothing
has a rule for the cell that lies on top, and this cell has a rule because a
stack only ever holds symbols that some move has put there (`IsKnown`).  The
bottom is put back by every rule that takes it, so a stack of cells keeps its
form.

Runs of moves are therefore runs of rules, which the summaries describe, and
`accepts_iff_recognizes` says that the answer is the right one for every
automaton and every word, and that the sweeps which lead to it end by themselves.
-/
import LanguageForms.Proofs.Pushdown.Summaries
import LanguageForms.Pushdown.Run

namespace LanguageForms
namespace Pushdown

variable {p : Pushdown} {word : List Char}

/-- The rules come from the moves between declared states. -/
theorem mem_rules {r : Rule} :
    r ∈ p.rules ↔ ∃ m ∈ p.moves, m.source ∈ p.states ∧ m.target ∈ p.states ∧
      r ∈ m.rules p.cells := by
  simp only [rules, List.mem_flatMap, List.mem_filter, Bool.and_eq_true, decide_eq_true_eq,
    and_assoc]

/-- The bottom is one of the cells. -/
theorem bottom_mem_cells : Cell.bottom ∈ p.cells :=
  List.mem_append_right _ (List.mem_singleton.2 rfl)

/-- A symbol that a move puts on the stack is one of the cells. -/
theorem symbol_mem_cells {c : Char} {m : Move} (hm : m ∈ p.moves) (hc : c ∈ m.push) :
    Cell.symbol c ∈ p.cells := by
  refine List.mem_append_left _ (List.mem_map_of_mem (List.mem_eraseDups.2 ?_))
  refine List.mem_append_right _ (List.mem_flatMap.2 ⟨m, hm, ?_⟩)
  exact List.mem_append_right _ hc

/-- The cells of a stack, with the bottom below all symbols. -/
def stackCells (stack : List Char) : List Cell := stack.map .symbol ++ [.bottom]

/-- The cells of a stack in two parts are those of the parts. -/
theorem stackCells_append (xs ys : List Char) :
    stackCells (xs ++ ys) = xs.map .symbol ++ stackCells ys := by
  rw [stackCells, stackCells, List.map_append, List.append_assoc]

/-- Every stack has a cell on top, and what lies below is a stack again unless that cell is the
bottom. -/
theorem stackCells_eq_cons {stack : List Char} {z : Cell} {zs : List Cell}
    (h : stackCells stack = z :: zs) :
    (stack = [] ∧ z = .bottom ∧ zs = []) ∨
      ∃ c rest, stack = c :: rest ∧ z = .symbol c ∧ zs = stackCells rest := by
  cases stack with
  | nil =>
    obtain ⟨hz, hzs⟩ := List.cons.inj h
    exact .inl ⟨rfl, hz.symm, hzs.symm⟩
  | cons c rest =>
    obtain ⟨hz, hzs⟩ := List.cons.inj h
    exact .inr ⟨c, rest, rfl, hz.symm, hzs.symm⟩

/-- A configuration before a position of the word, with its stack as cells. -/
def lowered (q : State) (i : Nat) (stack : List Char) : Rule.Config :=
  ⟨⟨q, i⟩, stackCells stack⟩

/-- All symbols on the stack have rules. -/
def IsKnown (p : Pushdown) (stack : List Char) : Prop := ∀ c ∈ stack, Cell.symbol c ∈ p.cells

/-- Reading a label off the rest of the word is moving its position on. -/
theorem spelled_append_eq_drop_iff {l : Label} {unread : List Char} {i : Nat} :
    l.spelled ++ unread = word.drop i ↔
      ∃ j, nextPosition? word i l = some j ∧ unread = word.drop j := by
  cases l with
  | epsilon =>
    constructor
    · exact fun h => ⟨i, rfl, h⟩
    · rintro ⟨j, hj, rfl⟩
      obtain rfl := Option.some.inj hj
      rfl
  | symbol c =>
    constructor
    · intro h
      have hc : word[i]? = some c := by
        rw [← List.head?_drop, ← h]
        rfl
      have hunread : unread = word.drop (i + 1) := by
        rw [← List.tail_drop, ← h]
        rfl
      exact ⟨i + 1, if_pos hc, hunread⟩
    · rintro ⟨j, hj, rfl⟩
      obtain ⟨hc, hj⟩ := Option.ite_none_right_eq_some.1 hj
      obtain rfl := Option.some.inj hj
      obtain ⟨hi, rfl⟩ := List.getElem?_eq_some_iff.1 hc
      exact (List.drop_eq_getElem_cons hi).symm

/-- **A move that fires uses one of its rules.** -/
theorem use_of_fire {c d : Config} {i : Nat} (h : Step p c d) (hc : c.unread = word.drop i)
    (hknown : p.IsKnown c.stack) :
    ∃ j, d.unread = word.drop j ∧ p.IsKnown d.stack ∧
      Rule.Step p.rules word (lowered c.state i c.stack) (lowered d.state j d.stack) := by
  cases h with
  | @fire m unread stack hm hs ht =>
    obtain ⟨j, hj, hunread⟩ := spelled_append_eq_drop_iff.1 hc
    have hrest : p.IsKnown stack := fun x hx => hknown x (List.mem_append_right _ hx)
    have hnew : p.IsKnown (m.push ++ stack) := by
      intro x hx
      rcases List.mem_append.1 hx with hx | hx
      · exact symbol_mem_cells hm hx
      · exact hrest x hx
    refine ⟨j, hunread, hnew, ?_⟩
    unfold lowered
    rw [stackCells_append m.push]
    cases hpop : m.pop with
    | some x =>
      have hr : (⟨m.source, m.label, .symbol x, m.push.map .symbol, m.target⟩ : Rule) ∈ p.rules :=
        mem_rules.2 ⟨m, hm, hs, ht, by rw [Move.rules, hpop]; exact List.mem_singleton.2 rfl⟩
      exact .use (stackCells stack) hr hj
    | none =>
      -- the rule takes the cell that happens to lie on top, and puts it back
      obtain ⟨z, zs, hz, hzs⟩ : ∃ z zs, z ∈ p.cells ∧ stackCells stack = z :: zs := by
        cases stack with
        | nil => exact ⟨.bottom, [], bottom_mem_cells, rfl⟩
        | cons x rest => exact ⟨.symbol x, stackCells rest, hrest x (List.mem_cons_self ..), rfl⟩
      have hr : (⟨m.source, m.label, z, m.push.map .symbol ++ [z], m.target⟩ : Rule) ∈ p.rules :=
        mem_rules.2 ⟨m, hm, hs, ht, by rw [Move.rules, hpop]; exact List.mem_map_of_mem hz⟩
      have hstep := Rule.Step.use zs hr hj
      rw [List.append_assoc] at hstep
      show Rule.Step _ _ ⟨_, stackCells stack⟩ _
      rw [hzs]
      exact hstep

/-- A move can be made at the position where its label can be read. -/
theorem fire_at {m : Move} {i j : Nat} (hm : m ∈ p.moves) (hs : m.source ∈ p.states)
    (ht : m.target ∈ p.states) (hj : nextPosition? word i m.label = some j) (stack : List Char) :
    Step p ⟨m.source, word.drop i, m.pop.toList ++ stack⟩
      ⟨m.target, word.drop j, m.push ++ stack⟩ := by
  have hread : m.label.spelled ++ word.drop j = word.drop i :=
    spelled_append_eq_drop_iff.2 ⟨j, hj, rfl⟩
  rw [← hread]
  exact .fire (word.drop j) stack hm hs ht

/-- **A rule that is used is a move that fires**, and leaves the bottom below the symbols. -/
theorem fire_of_use {q : State} {i : Nat} {stack : List Char} {d : Rule.Config}
    (h : Rule.Step p.rules word (lowered q i stack) d) :
    ∃ q' j stack', d = lowered q' j stack' ∧
      Step p ⟨q, word.drop i, stack⟩ ⟨q', word.drop j, stack'⟩ := by
  generalize hc : lowered q i stack = c at h
  cases h with
  | @use r i' j cells hr hj =>
    obtain ⟨m, hm, hs, ht, hrule⟩ := mem_rules.1 hr
    obtain ⟨hpoint, hcells⟩ := Rule.Config.mk.inj hc
    obtain ⟨rfl, rfl⟩ := Point.mk.inj hpoint
    cases hpop : m.pop with
    | some x =>
      rw [Move.rules, hpop, List.mem_singleton] at hrule
      subst hrule
      obtain ⟨-, hbottom, -⟩ | ⟨c, rest, rfl, hx, rfl⟩ := stackCells_eq_cons hcells
      · cases hbottom
      · obtain rfl := Cell.symbol.inj hx
        have hfire := fire_at hm hs ht hj rest
        rw [hpop] at hfire
        refine ⟨m.target, j, m.push ++ rest, ?_, hfire⟩
        rw [lowered, stackCells_append]
    | none =>
      rw [Move.rules, hpop] at hrule
      obtain ⟨z, -, rfl⟩ := List.mem_map.1 hrule
      have hfire := fire_at hm hs ht hj stack
      rw [hpop] at hfire
      refine ⟨m.target, j, m.push ++ stack, ?_, hfire⟩
      rw [lowered, stackCells_append, hcells, List.append_assoc, List.singleton_append]

/-- A run of moves is a run of rules. -/
theorem run_rules_of_run {c d : Config} {i : Nat} (h : Run p c d) (hc : c.unread = word.drop i)
    (hknown : p.IsKnown c.stack) :
    ∃ j, d.unread = word.drop j ∧
      Rule.Run p.rules word (lowered c.state i c.stack) (lowered d.state j d.stack) := by
  induction h generalizing i with
  | refl c => exact ⟨i, hc, .refl _⟩
  | head hstep _ ih =>
    obtain ⟨j, hread, hknown, huse⟩ := use_of_fire hstep hc hknown
    obtain ⟨k, hend, hrun⟩ := ih hread hknown
    exact ⟨k, hend, .head huse hrun⟩

/-- A run of rules on the cells of a stack is a run of moves. -/
theorem run_of_run_rules {c d : Rule.Config} (h : Rule.Run p.rules word c d) {q : State} {i : Nat}
    {stack : List Char} (hc : c = lowered q i stack) :
    ∃ q' j stack', d = lowered q' j stack' ∧
      Run p ⟨q, word.drop i, stack⟩ ⟨q', word.drop j, stack'⟩ := by
  induction h generalizing q i stack with
  | refl c => exact ⟨q, i, stack, hc, .refl _⟩
  | head hstep _ ih =>
    subst hc
    obtain ⟨q', j, stack', hd, hfire⟩ := fire_of_use hstep
    obtain ⟨q'', k, stack'', he, hrun⟩ := ih hd
    exact ⟨q'', k, stack'', he, .head hfire hrun⟩

/-- A run never reads beyond the end of the word. -/
theorem position_le_of_run {rules : List Rule} {c d : Rule.Config} (h : Rule.Run rules word c d)
    (hc : c.point.position ≤ word.length) : d.point.position ≤ word.length := by
  induction h with
  | refl c => exact hc
  | head hstep _ ih =>
    cases hstep with
    | use cells hr hj => exact ih (nextPosition?_le hc hj)

/-- The word is recognised if some run of rules from the bottom reads it and ends in an
accepting state. -/
theorem recognizes_iff_exists_run :
    p.Recognizes word ↔ ∃ q cells,
      Rule.Run p.rules word ⟨⟨p.start, 0⟩, [.bottom]⟩ ⟨⟨q, word.length⟩, cells⟩ ∧
        q ∈ p.accepting := by
  constructor
  · rintro ⟨q, stack, hrun, hq⟩
    obtain ⟨j, hend, hrules⟩ := run_rules_of_run (i := 0) hrun rfl
      fun c hc => absurd hc List.not_mem_nil
    have hle : j ≤ word.length := position_le_of_run hrules (Nat.zero_le _)
    have hge : word.length ≤ j := List.drop_eq_nil_iff.1 hend.symm
    obtain rfl : j = word.length := by omega
    exact ⟨q, stackCells stack, hrules, hq⟩
  · rintro ⟨q, cells, hrun, hq⟩
    have hempty : (⟨⟨p.start, 0⟩, [.bottom]⟩ : Rule.Config) = lowered p.start 0 [] := rfl
    obtain ⟨q', j, stack, hd, hrun⟩ := run_of_run_rules hrun hempty
    obtain ⟨hpoint, -⟩ := Rule.Config.mk.inj hd
    obtain ⟨rfl, rfl⟩ := Point.mk.inj hpoint
    rw [List.drop_length] at hrun
    exact ⟨q, stack, hrun, hq⟩

/-- A word is accepted if the summaries know such a run. -/
theorem accepts_iff_exists_run :
    p.accepts word = true ↔ ∃ q cells,
      Rule.Run p.rules word ⟨⟨p.start, 0⟩, [.bottom]⟩ ⟨⟨q, word.length⟩, cells⟩ ∧
        q ∈ p.accepting := by
  simp only [accepts, List.any_eq_true, Bool.and_eq_true, decide_eq_true_eq]
  constructor
  · rintro ⟨⟨q, i⟩, hmem, rfl, hq⟩
    obtain ⟨cells, hrun⟩ := (mem_reached_iff (fun _ => Iff.rfl) (Nat.zero_le _)).1 hmem
    exact ⟨q, cells, hrun, hq⟩
  · rintro ⟨q, cells, hrun, hq⟩
    have hmem := (mem_reached_iff (fun _ => Iff.rfl) (Nat.zero_le _)).2 ⟨cells, hrun⟩
    exact ⟨_, hmem, rfl, hq⟩

/-- **Acceptance is decided exactly.**  The sweeps over all firings end because nothing is left
to add, for the pops and for the reaches, and the answer is whether some run from the start state
and the empty stack reads the word and ends in an accepting state. -/
theorem accepts_iff_recognizes (p : Pushdown) (word : List Char) :
    IsStable popsAfter (firings p.rules word) (popsOf (firings p.rules word)) ∧
      IsStable (reachesAfter (popsOf (firings p.rules word))) (firings p.rules word)
        (reachesOf (firings p.rules word) (popsOf (firings p.rules word))) ∧
      (p.accepts word = true ↔ p.Recognizes word) := by
  have hexact : p.accepts word = true ↔ p.Recognizes word :=
    accepts_iff_exists_run.trans recognizes_iff_exists_run.symm
  exact ⟨isStable_popsOf _, isStable_reachesOf _, hexact⟩

end Pushdown
end LanguageForms
