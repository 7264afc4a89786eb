/-
# The summaries on whole stacks

A run of rules above a rest of the stack goes the same way on the whole stack, reads
the word between its positions, and never touches the rest (`Rule.reads_of_run`).  The
other way round, a run that leaves as many cells alone as the rest has leaves the rest
itself alone, and is a run above it (`Rule.run_of_reads`).

So the pops and the reaches of a situation say what runs on whole stacks do, whatever
lies below (`summaries_iff_reads`).
-/
import LanguageForms.Proofs.Pushdown.Acceptance
import LanguageForms.Pushdown.Stacked

namespace LanguageForms
namespace Pushdown

variable {rules : List Rule} {word w unread : List Char} {cells rest stack : List Cell}
  {p q : State} {i j k height : Nat} {l : Label} {z : Cell}

/-! ### The word between two positions -/

/-- Reading never goes back. -/
theorem le_of_nextPosition? (h : nextPosition? word i l = some k) : i ≤ k := by
  cases l with
  | epsilon => exact Nat.le_of_eq (Option.some.inj h)
  | symbol c =>
    obtain ⟨-, h⟩ := Option.ite_none_right_eq_some.1 h
    exact Nat.le_of_lt (Nat.lt_of_succ_le (Nat.le_of_eq (Option.some.inj h)))

/-- A word from a position on is what is read up to another one and the rest. -/
theorem extract_append_drop (hij : i ≤ j) : word.extract i j ++ word.drop j = word.drop i := by
  have hdrop : word.drop j = (word.drop i).drop (j - i) := by
    rw [List.drop_drop, Nat.add_sub_cancel' hij]
  rw [hdrop]
  exact List.take_append_drop (j - i) (word.drop i)

/-- What is read first comes first. -/
theorem spelled_append_extract (h : nextPosition? word i l = some k) (hkj : k ≤ j) :
    l.spelled ++ word.extract k j = word.extract i j := by
  have hij : i ≤ j := Nat.le_trans (le_of_nextPosition? h) hkj
  refine (List.append_left_inj (word.drop j)).1 ?_
  rw [List.append_assoc, extract_append_drop hkj, extract_append_drop hij]
  exact spelled_append_eq_drop_iff.2 ⟨k, h, rfl⟩

namespace Rule

/-- **A run above a rest is a run on the whole stack**, and does not touch the rest. -/
theorem reads_of_run {c d : Config} (h : Run rules word c d) (rest : List Cell) :
    c.point.position ≤ d.point.position ∧
      Reads rules rest.length ⟨c.point.state, c.cells ++ rest⟩
        (word.extract c.point.position d.point.position) ⟨d.point.state, d.cells ++ rest⟩ := by
  induction h with
  | refl c =>
    have hnone : word.extract c.point.position c.point.position = [] := by
      simp [List.extract_eq_take_drop]
    rw [hnone]
    exact ⟨Nat.le_refl _, .refl _⟩
  | head hstep _ ih =>
    cases hstep with
    | @use r i k cells hr hk =>
      obtain ⟨hle, hreads⟩ := ih
      have hread := spelled_append_extract hk hle
      refine ⟨Nat.le_trans (le_of_nextPosition? hk) hle, ?_⟩
      rw [← hread]
      rw [List.append_assoc] at hreads
      exact .use hr (by simp) hreads

/-- **A run that leaves as many cells alone is a run above them.** -/
theorem run_of_reads {c d : Stacked} (h : Reads rules rest.length c w d)
    (hc : c.stack = cells ++ rest) (hread : w ++ unread = word.drop i) :
    ∃ j cells', d.stack = cells' ++ rest ∧ unread = word.drop j ∧
      Run rules word ⟨⟨c.state, i⟩, cells⟩ ⟨⟨d.state, j⟩, cells'⟩ := by
  induction h generalizing cells i with
  | refl c => exact ⟨i, cells, hc, hread, .refl _⟩
  | @use r below w d hr hheight _ ih =>
    cases cells with
    | nil =>
      -- the cell that is taken would belong to the rest
      have hlength := congrArg List.length hc
      simp only [List.length_cons, List.nil_append] at hlength
      omega
    | cons z cells =>
      obtain ⟨rfl, rfl⟩ := List.cons.inj hc
      rw [List.append_assoc] at hread
      obtain ⟨k, hk, hrest⟩ := spelled_append_eq_drop_iff.1 hread
      obtain ⟨j, cells', hd, hunread, hrun⟩ := ih (List.append_assoc ..).symm hrest
      exact ⟨j, cells', hd, hunread, .head (.use cells hr hk) hrun⟩

/-- Runs above a rest are the runs on whole stacks that leave it alone. -/
theorem reads_iff_run (hi : i ≤ word.length) :
    i ≤ j ∧ j ≤ word.length ∧
        Reads rules rest.length ⟨p, cells ++ rest⟩ (word.extract i j) ⟨q, stack⟩ ↔
      ∃ cells', stack = cells' ++ rest ∧ Run rules word ⟨⟨p, i⟩, cells⟩ ⟨⟨q, j⟩, cells'⟩ := by
  constructor
  · rintro ⟨hij, hj, hreads⟩
    obtain ⟨k, cells', rfl, hk, hrun⟩ := run_of_reads hreads rfl (extract_append_drop hij)
    have hle : k ≤ word.length := position_le_of_run hrun hi
    have hlength := congrArg List.length hk
    rw [List.length_drop, List.length_drop] at hlength
    obtain rfl : j = k := by omega
    exact ⟨cells', rfl, hrun⟩
  · rintro ⟨cells', rfl, hrun⟩
    obtain ⟨hij, hreads⟩ := reads_of_run hrun rest
    exact ⟨hij, position_le_of_run hrun hi, hreads⟩

end Rule

/-! ### The summaries -/

section Sweeps

variable {s : Situation} {fs : List Firing} (hfs : ∀ f, f ∈ fs ↔ f ∈ firings rules word)
include hfs

/-- **A pop** is a run that takes the cell and never touches the rest. -/
theorem mem_popsOf_iff_reads (hs : s.position ≤ word.length) :
    ⟨q, j⟩ ∈ (popsOf fs).image s ↔ s.position ≤ j ∧ j ≤ word.length ∧
      Rule.Reads rules rest.length ⟨s.state, s.top :: rest⟩ (word.extract s.position j)
        ⟨q, rest⟩ := by
  have hruns : s.position ≤ j ∧ j ≤ word.length ∧ Rule.Reads rules rest.length
        ⟨s.state, [s.top] ++ rest⟩ (word.extract s.position j) ⟨q, rest⟩ ↔
      ∃ cells, rest = cells ++ rest ∧ Rule.Run rules word ⟨s.point, [s.top]⟩ ⟨⟨q, j⟩, cells⟩ :=
    Rule.reads_iff_run hs
  simp only [List.self_eq_append_left, exists_eq_left] at hruns
  exact (mem_popsOf_iff hfs hs).trans hruns.symm

/-- **What is reached** is where runs lead that never touch the rest. -/
theorem mem_reached_iff_reads (hs : s.position ≤ word.length) :
    ⟨q, j⟩ ∈ reached (reachesOf fs (popsOf fs)) s.top s.point ↔
      s.position ≤ j ∧ j ≤ word.length ∧ ∃ stack,
        Rule.Reads rules rest.length ⟨s.state, s.top :: rest⟩ (word.extract s.position j)
          ⟨q, stack⟩ := by
  have hruns : ∀ stack, s.position ≤ j ∧ j ≤ word.length ∧ Rule.Reads rules rest.length
        ⟨s.state, [s.top] ++ rest⟩ (word.extract s.position j) ⟨q, stack⟩ ↔
      ∃ cells, stack = cells ++ rest ∧ Rule.Run rules word ⟨s.point, [s.top]⟩ ⟨⟨q, j⟩, cells⟩ :=
    fun stack => Rule.reads_iff_run hs
  refine (mem_reached_iff hfs hs).trans ⟨?_, ?_⟩
  · rintro ⟨cells, hrun⟩
    obtain ⟨hij, hj, hreads⟩ := (hruns (cells ++ rest)).2 ⟨cells, rfl, hrun⟩
    exact ⟨hij, hj, _, hreads⟩
  · rintro ⟨hij, hj, stack, hreads⟩
    obtain ⟨cells, -, hrun⟩ := (hruns stack).1 ⟨hij, hj, hreads⟩
    exact ⟨cells, hrun⟩

end Sweeps

/-- The bottom is never taken for good. -/
theorem image_popsOf_bottom {p : Pushdown} {s : Situation} {fs : List Firing}
    (hfs : ∀ f, f ∈ fs ↔ f ∈ firings p.rules word) (hs : s.top = .bottom) :
    (popsOf fs).image s = [] := by
  refine List.eq_nil_iff_forall_not_mem.2 fun m hm => ?_
  have hrun : Rule.Run p.rules word ⟨s.point, [s.top]⟩ ⟨m, []⟩ := within_popsOf hfs s m hm
  rw [hs] at hrun
  have hempty : (⟨s.point, [.bottom]⟩ : Rule.Config) = lowered s.state s.position [] := rfl
  obtain ⟨q, j, stack, hend, -⟩ := run_of_run_rules hrun hempty
  have hcells : [] = stackCells stack := congrArg Rule.Config.cells hend
  simp [stackCells] at hcells

/-- **The summaries mean what runs on whole stacks do**, in whatever order the firings are swept.
Sweeping ends, for the pops and for the reaches.  A point is a pop of a situation exactly if some
run from there reads the word up to that point, takes the cell on top of the situation and leaves
any rest below it alone; nothing is a pop of the bottom.  A point is reached from a situation
exactly if some run from there reads the word up to that point and leaves the rest alone. -/
theorem summaries_iff_reads (p : Pushdown) (word : List Char) (fs : List Firing)
    (hfs : ∀ f, f ∈ fs ↔ f ∈ firings p.rules word) :
    Saturates popsAfter fs .empty (popsOf fs) ∧
      Saturates (reachesAfter (popsOf fs)) fs .empty (reachesOf fs (popsOf fs)) ∧
      (∀ s : Situation, s.position ≤ word.length → ∀ (q : State) (j : Nat) (rest : List Cell),
        (⟨q, j⟩ ∈ (popsOf fs).image s ↔ s.position ≤ j ∧ j ≤ word.length ∧
          Rule.Reads p.rules rest.length ⟨s.state, s.top :: rest⟩ (word.extract s.position j)
            ⟨q, rest⟩)) ∧
      (∀ s : Situation, s.top = .bottom → (popsOf fs).image s = []) ∧
      ∀ s : Situation, s.position ≤ word.length → ∀ (q : State) (j : Nat) (rest : List Cell),
        (⟨q, j⟩ ∈ reached (reachesOf fs (popsOf fs)) s.top s.point ↔
          s.position ≤ j ∧ j ≤ word.length ∧ ∃ stack,
            Rule.Reads p.rules rest.length ⟨s.state, s.top :: rest⟩ (word.extract s.position j)
              ⟨q, stack⟩) :=
  ⟨(isStable_popsOf fs).saturates, (isStable_reachesOf fs).saturates,
    fun _ hs _ _ _ => mem_popsOf_iff_reads hfs hs, fun _ => image_popsOf_bottom hfs,
    fun _ hs _ _ _ => mem_reached_iff_reads hfs hs⟩

/-- The order of the firings does not matter. -/
theorem mem_firingsByRule {f : Firing} : f ∈ firingsByRule rules word ↔ f ∈ firings rules word := by
  simp only [firingsByRule, firings, List.mem_flatMap, List.mem_filterMap, List.mem_reverse]
  constructor
  · rintro ⟨r, hr, i, hi, hf⟩
    exact ⟨i, hi, r, hr, hf⟩
  · rintro ⟨i, hi, r, hr, hf⟩
    exact ⟨r, hr, i, hi, hf⟩

/-- An automaton that puts a symbol on the stack for every `a`, changes its state, and takes one of
them for every `b`. -/
def counting : Pushdown where
  states := .ofList [⟨"p"⟩, ⟨"q"⟩]
  inputAlphabet := .ofList ['a', 'b']
  stackAlphabet := .ofList ['X']
  moves := [⟨⟨"p"⟩, .symbol 'a', none, ['X'], ⟨"p"⟩⟩, ⟨⟨"p"⟩, .epsilon, none, [], ⟨"q"⟩⟩,
    ⟨⟨"q"⟩, .symbol 'b', some 'X', [], ⟨"q"⟩⟩]
  start := ⟨"p"⟩
  accepting := .ofList [⟨"q"⟩]

/-- The hypotheses of `summaries_iff_reads` are satisfiable, with the firings in another order: the
symbol on top is taken with the last of three letters, and the bottom is never taken, but above it
two letters are read. -/
theorem summaries_counting :
    (∀ f, f ∈ firingsByRule counting.rules ['a', 'b', 'b'] ↔
      f ∈ firings counting.rules ['a', 'b', 'b']) ∧
    ⟨⟨"q"⟩, 3⟩ ∈ (popsOf (firingsByRule counting.rules ['a', 'b', 'b'])).image
      ⟨⟨"p"⟩, .symbol 'X', 0⟩ ∧
    (popsOf (firingsByRule counting.rules ['a', 'b', 'b'])).image ⟨⟨"p"⟩, .bottom, 0⟩ = [] ∧
    ⟨⟨"q"⟩, 2⟩ ∈ reached (reachesOf (firingsByRule counting.rules ['a', 'b', 'b'])
      (popsOf (firingsByRule counting.rules ['a', 'b', 'b']))) .bottom ⟨⟨"p"⟩, 0⟩ := by
  have hfs : ∀ f, f ∈ firingsByRule counting.rules ['a', 'b', 'b'] ↔
      f ∈ firings counting.rules ['a', 'b', 'b'] := fun _ => mem_firingsByRule
  obtain ⟨-, -, hpops, hbottom, hreached⟩ := summaries_iff_reads counting ['a', 'b', 'b'] _ hfs
  have hput : ∀ z ∈ [.symbol 'X', .bottom],
      (⟨⟨"p"⟩, .symbol 'a', z, [.symbol 'X', z], ⟨"p"⟩⟩ : Rule) ∈ counting.rules := by decide
  have hchange : (⟨⟨"p"⟩, .epsilon, .symbol 'X', [.symbol 'X'], ⟨"q"⟩⟩ : Rule) ∈
      counting.rules := by decide
  have htake : (⟨⟨"q"⟩, .symbol 'b', .symbol 'X', [], ⟨"q"⟩⟩ : Rule) ∈ counting.rules := by decide
  refine ⟨hfs, ?_, hbottom _ rfl, ?_⟩
  · refine (hpops _ (Nat.zero_le _) _ _ [.bottom]).2 ⟨Nat.zero_le _, Nat.le_refl _, ?_⟩
    exact .use (hput _ (by decide)) (by decide) (.use hchange (by decide)
      (.use htake (by decide) (.use htake (by decide) (.refl _))))
  · refine (hreached ⟨⟨"p"⟩, .bottom, 0⟩ (Nat.zero_le _) _ _ []).2
      ⟨Nat.zero_le _, by decide, [.bottom], ?_⟩
    exact .use (hput _ (by decide)) (by decide) (.use hchange (by decide)
      (.use htake (by decide) (.refl _)))

end Pushdown
end LanguageForms
