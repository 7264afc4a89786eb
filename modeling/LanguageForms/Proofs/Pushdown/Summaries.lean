/-
# What the summaries mean

A pop of a situation is a point at the end of a run that begins with the cell of
the situation and ends without it; a reach is a point at the end of any run that
begins with that cell.  Both are stated without a stack below the cell, which
such a run leaves alone (`Rule.Run.under`).

`mem_popsOf_iff` and `mem_reached_iff` say that the saturated relations hold
exactly these points, in whatever order the firings are swept.  Every firing
keeps the meaning (`keeps_isPop`, `keeps_isReach`), so a summary is never wrong.
That none is missing is an induction on the run from its first step on: what is
left of the run takes the cells that this step has put on the stack, one after
the other, and then the cells below, which is how `popCells` and `passCells` go
through a stack (`popCells_append`, `mem_passCells_append`).
-/
import LanguageForms.Proofs.Pushdown.Saturation
import LanguageForms.Pushdown.RuleRun

namespace LanguageForms
namespace Pushdown

/-- The point of a situation. -/
def Situation.point (s : Situation) : Point := ⟨s.state, s.position⟩

/-- Some run from the situation takes its cell and ends at the point. -/
def IsPop (rules : List Rule) (word : List Char) (s : Situation) (q : Point) : Prop :=
  Rule.Run rules word ⟨s.point, [s.top]⟩ ⟨q, []⟩

/-- Some run from the situation, whether or not it takes its cell, ends at the point. -/
def IsReach (rules : List Rule) (word : List Char) (s : Situation) (q : Point) : Prop :=
  ∃ cells, Rule.Run rules word ⟨s.point, [s.top]⟩ ⟨q, cells⟩

variable {rules : List Rule} {word : List Char} {pops reaches : Relation} {ps qs : List Point}
  {p q : Point} {z : Cell} {zs : List Cell} {fs : List Firing}

/-- A label is read before the end of the word. -/
theorem nextPosition?_le {i j : Nat} {l : Label} (hi : i ≤ word.length)
    (h : nextPosition? word i l = some j) : j ≤ word.length := by
  cases l with
  | epsilon =>
    obtain rfl := Option.some.inj h
    exact hi
  | symbol c =>
    have hc := Option.ite_none_right_eq_some.1 h
    obtain ⟨hlt, -⟩ := List.getElem?_eq_some_iff.1 hc.1
    have hj : i + 1 = j := Option.some.inj hc.2
    omega

/-- The firings are the rules at the positions where their labels can be read. -/
theorem mem_firings {f : Firing} :
    f ∈ firings rules word ↔ ∃ r ∈ rules, ∃ i j, i ≤ word.length ∧
      nextPosition? word i r.label = some j ∧
        f = ⟨⟨r.source, r.pop, i⟩, ⟨r.target, j⟩, r.push⟩ := by
  simp only [firings, List.mem_flatMap, List.mem_reverse, List.mem_range, List.mem_filterMap,
    Rule.firing?, Option.map_eq_some_iff]
  constructor
  · rintro ⟨i, hi, r, hr, j, hj, rfl⟩
    exact ⟨r, hr, i, j, by omega, hj, rfl⟩
  · rintro ⟨r, hr, i, j, hi, hj, rfl⟩
    exact ⟨i, by omega, r, hr, j, hj, rfl⟩

/-- A cell is taken from one of the points by a pop of its situation. -/
theorem mem_popCell : q ∈ popCell pops ps z ↔ ∃ p ∈ ps, q ∈ pops.image (p.under z) := by
  rw [popCell, List.mem_eraseDups, List.mem_flatMap]

/-- Cells are taken one after the other. -/
theorem popCells_append (ps : List Point) (zs ys : List Cell) :
    popCells pops ps (zs ++ ys) = popCells pops (popCells pops ps zs) ys := by
  induction zs generalizing ps with
  | nil => rfl
  | cons z zs ih => exact ih (popCell pops ps z)

/-- More points lead to at least as many when a cell is taken. -/
theorem popCell_mono (h : ∀ p ∈ ps, p ∈ qs) (hq : q ∈ popCell pops ps z) :
    q ∈ popCell pops qs z := by
  obtain ⟨p, hp, hq⟩ := mem_popCell.1 hq
  exact mem_popCell.2 ⟨p, h p hp, hq⟩

/-- More points lead to at least as many when several cells are taken. -/
theorem popCells_mono (h : ∀ p ∈ ps, p ∈ qs) (hq : q ∈ popCells pops ps zs) :
    q ∈ popCells pops qs zs := by
  induction zs generalizing ps qs with
  | nil => exact h q hq
  | cons z zs ih => exact ih (fun p hp => popCell_mono h hp) hq

/-- While cells are taken the automaton is above the first one, or has taken it. -/
theorem mem_passCells_cons :
    q ∈ passCells pops reaches ps (z :: zs) ↔
      (∃ p ∈ ps, q ∈ reached reaches z p) ∨
        q ∈ passCells pops reaches (popCell pops ps z) zs := by
  rw [passCells, List.mem_append, List.mem_flatMap]

/-- More points lead to at least as many while cells are taken. -/
theorem passCells_mono (h : ∀ p ∈ ps, p ∈ qs) (hq : q ∈ passCells pops reaches ps zs) :
    q ∈ passCells pops reaches qs zs := by
  induction zs generalizing ps qs with
  | nil => exact h q hq
  | cons z zs ih =>
    rcases mem_passCells_cons.1 hq with ⟨p, hp, hq⟩ | hq
    · exact mem_passCells_cons.2 (.inl ⟨p, h p hp, hq⟩)
    · exact mem_passCells_cons.2 (.inr (ih (fun p hp => popCell_mono h hp) hq))

/-- While several cells are taken, the first of them are taken or they are gone. -/
theorem mem_passCells_append {ys : List Cell} (hq : q ∈ passCells pops reaches ps (zs ++ ys)) :
    q ∈ passCells pops reaches ps zs ∨ q ∈ passCells pops reaches (popCells pops ps zs) ys := by
  induction zs generalizing ps with
  | nil => exact .inr hq
  | cons z zs ih =>
    rcases mem_passCells_cons.1 hq with hq | hq
    · exact .inl (mem_passCells_cons.2 (.inl hq))
    · exact (ih hq).imp_left fun hq => mem_passCells_cons.2 (.inr hq)

/-! ### The sweeps end -/

/-- A property of all pops and of the first points holds when cells are taken. -/
theorem forall_popCells {P : Point → Prop} (hpops : pops.Within fun _ p => P p)
    (hps : ∀ p ∈ ps, P p) : ∀ q ∈ popCells pops ps zs, P q := by
  induction zs generalizing ps with
  | nil => exact hps
  | cons z zs ih =>
    refine ih fun q hq => ?_
    obtain ⟨p, -, hq⟩ := mem_popCell.1 hq
    exact hpops _ q hq

/-- A property of all pairs and of the first points holds while cells are taken. -/
theorem forall_passCells {P : Point → Prop} (hpops : pops.Within fun _ p => P p)
    (hreaches : reaches.Within fun _ p => P p) (hps : ∀ p ∈ ps, P p) :
    ∀ q ∈ passCells pops reaches ps zs, P q := by
  induction zs generalizing ps with
  | nil => exact hps
  | cons z zs ih =>
    intro q hq
    rcases mem_passCells_cons.1 hq with ⟨p, hp, hq⟩ | hq
    · rcases List.mem_cons.1 hq with rfl | hq
      · exact hps q hp
      · exact hreaches _ q hq
    · refine ih (fun q hq => ?_) q hq
      obtain ⟨p, -, hq⟩ := mem_popCell.1 hq
      exact hpops _ q hq

/-- The pops stay among the links of the firings. -/
theorem keeps_isLink_pops (fs : List Firing) : Keeps popsAfter fs (IsLink fs) := by
  intro pops hpops f hf p hp
  refine ⟨List.mem_map_of_mem hf, ?_⟩
  refine forall_popCells (fun s q hq => (hpops s q hq).2) (fun q hq => ?_) p hp
  rw [List.mem_singleton.1 hq]
  exact List.mem_map_of_mem hf

/-- The reached points stay among the links of the firings. -/
theorem keeps_isLink_reaches (hpops : pops.Within (IsLink fs)) :
    Keeps (reachesAfter pops) fs (IsLink fs) := by
  intro reaches hreaches f hf p hp
  refine ⟨List.mem_map_of_mem hf, ?_⟩
  refine forall_passCells (fun s q hq => (hpops s q hq).2) (fun s q hq => (hreaches s q hq).2)
    (fun q hq => ?_) p hp
  rw [List.mem_singleton.1 hq]
  exact List.mem_map_of_mem hf

/-- **The sweeps for the pops end by themselves.** -/
theorem isStable_popsOf (fs : List Firing) : IsStable popsAfter fs (popsOf fs) :=
  isStable_saturate (keeps_isLink_pops fs)

/-- **The sweeps for the reaches end by themselves.** -/
theorem isStable_reachesOf (fs : List Firing) :
    IsStable (reachesAfter (popsOf fs)) fs (reachesOf fs (popsOf fs)) := by
  have hpops : (popsOf fs).Within (IsLink fs) :=
    within_saturate (keeps_isLink_pops fs) Relation.within_empty _
  exact isStable_saturate (keeps_isLink_reaches hpops)

/-! ### No summary is wrong -/

/-- If pops are runs, cells that can be taken are taken by a run. -/
theorem run_of_mem_popCells (hpops : pops.Within (IsPop rules word))
    (hq : q ∈ popCells pops ps zs) : ∃ p ∈ ps, Rule.Run rules word ⟨p, zs⟩ ⟨q, []⟩ := by
  induction zs generalizing ps with
  | nil => exact ⟨q, hq, .refl _⟩
  | cons z zs ih =>
    obtain ⟨m, hm, hrun⟩ := ih hq
    obtain ⟨p, hp, hm⟩ := mem_popCell.1 hm
    have hpop : Rule.Run rules word ⟨p, z :: zs⟩ ⟨m, zs⟩ := (hpops _ m hm).under zs
    exact ⟨p, hp, hpop.trans hrun⟩

/-- If pops and reached points are runs, what is met while cells are taken is met by a run. -/
theorem run_of_mem_passCells (hpops : pops.Within (IsPop rules word))
    (hreaches : reaches.Within (IsReach rules word)) (hq : q ∈ passCells pops reaches ps zs) :
    ∃ p ∈ ps, ∃ cells, Rule.Run rules word ⟨p, zs⟩ ⟨q, cells⟩ := by
  induction zs generalizing ps with
  | nil => exact ⟨q, hq, [], .refl _⟩
  | cons z zs ih =>
    rcases mem_passCells_cons.1 hq with ⟨p, hp, hq⟩ | hq
    · rcases List.mem_cons.1 hq with rfl | hq
      · exact ⟨q, hp, z :: zs, .refl _⟩
      · obtain ⟨cells, hrun⟩ := hreaches _ q hq
        exact ⟨p, hp, cells ++ zs, hrun.under zs⟩
    · obtain ⟨m, hm, cells, hrun⟩ := ih hq
      obtain ⟨p, hp, hm⟩ := mem_popCell.1 hm
      have hpop : Rule.Run rules word ⟨p, z :: zs⟩ ⟨m, zs⟩ := (hpops _ m hm).under zs
      exact ⟨p, hp, cells, hpop.trans hrun⟩

/-- The run of one rule, where it has only its own cell to take. -/
theorem run_use {r : Rule} {i j : Nat} (hr : r ∈ rules)
    (hj : nextPosition? word i r.label = some j) :
    Rule.Run rules word ⟨⟨r.source, i⟩, [r.pop]⟩ ⟨⟨r.target, j⟩, r.push⟩ := by
  have hstep := Rule.Step.use [] hr hj
  rw [List.append_nil] at hstep
  exact .single hstep

section Sweeps

variable (hfs : ∀ f, f ∈ fs ↔ f ∈ firings rules word)
include hfs

/-- Every firing adds pops only for which there is a run. -/
theorem keeps_isPop : Keeps popsAfter fs (IsPop rules word) := by
  intro pops hpops f hf q hq
  obtain ⟨r, hr, i, j, -, hj, rfl⟩ := mem_firings.1 ((hfs f).1 hf)
  obtain ⟨p, hp, hrun⟩ := run_of_mem_popCells hpops hq
  obtain rfl := List.mem_singleton.1 hp
  exact (run_use hr hj).trans hrun

/-- Every firing adds reached points only for which there is a run. -/
theorem keeps_isReach (hpops : pops.Within (IsPop rules word)) :
    Keeps (reachesAfter pops) fs (IsReach rules word) := by
  intro reaches hreaches f hf q hq
  obtain ⟨r, hr, i, j, -, hj, rfl⟩ := mem_firings.1 ((hfs f).1 hf)
  obtain ⟨p, hp, cells, hrun⟩ := run_of_mem_passCells hpops hreaches hq
  obtain rfl := List.mem_singleton.1 hp
  exact ⟨cells, (run_use hr hj).trans hrun⟩

/-- **Every pop** has a run. -/
theorem within_popsOf : (popsOf fs).Within (IsPop rules word) :=
  within_saturate (keeps_isPop hfs) Relation.within_empty _

/-- **Every reached point** has a run. -/
theorem within_reachesOf : (reachesOf fs (popsOf fs)).Within (IsReach rules word) :=
  within_saturate (keeps_isReach hfs (within_popsOf hfs)) Relation.within_empty _

/-! ### No summary is missing -/

/-- The points that a rule leads to, once its cells are gone, are pops of its situation. -/
theorem popCells_push_subset (hpops : IsStable popsAfter fs pops) {r : Rule}
    {i j : Nat} (hr : r ∈ rules) (hi : i ≤ word.length)
    (hj : nextPosition? word i r.label = some j) :
    ∀ m ∈ popCells pops [⟨r.target, j⟩] r.push, m ∈ popCell pops [⟨r.source, i⟩] r.pop := by
  intro m hm
  have hf := (hfs _).2 (mem_firings.2 ⟨r, hr, i, j, hi, hj, rfl⟩)
  exact mem_popCell.2 ⟨_, List.mem_singleton.2 rfl, hpops.mem_image hf hm⟩

/-- When the pops are complete, cells that a run takes can be taken by pops. -/
theorem mem_popCells_of_run (hpops : IsStable popsAfter fs pops)
    {c d : Rule.Config} (hrun : Rule.Run rules word c d) (hc : c.point.position ≤ word.length)
    (hd : d.cells = []) : d.point ∈ popCells pops [c.point] c.cells := by
  induction hrun with
  | refl c =>
    rw [hd]
    exact List.mem_singleton.2 rfl
  | head hstep _ ih =>
    cases hstep with
    | @use r i j cells hr hj =>
      have hmem := ih (nextPosition?_le hc hj) hd
      rw [popCells_append] at hmem
      show _ ∈ popCells pops (popCell pops [⟨r.source, i⟩] r.pop) cells
      exact popCells_mono (popCells_push_subset hfs hpops hr hc hj) hmem

/-- When pops and reached points are complete, they meet what a run leads to. -/
theorem mem_passCells_of_run (hpops : IsStable popsAfter fs pops)
    (hreaches : IsStable (reachesAfter pops) fs reaches)
    {c d : Rule.Config} (hrun : Rule.Run rules word c d) (hc : c.point.position ≤ word.length) :
    d.point ∈ passCells pops reaches [c.point] c.cells := by
  induction hrun with
  | refl c =>
    obtain ⟨p, cells⟩ := c
    cases cells with
    | nil => exact List.mem_singleton.2 rfl
    | cons z zs =>
      exact mem_passCells_cons.2 (.inl ⟨p, List.mem_singleton.2 rfl, List.mem_cons_self ..⟩)
  | head hstep _ ih =>
    cases hstep with
    | use cells hr hj =>
      rcases mem_passCells_append (ih (nextPosition?_le hc hj)) with hmem | hmem
      · have hf := (hfs _).2 (mem_firings.2 ⟨_, hr, _, _, hc, hj, rfl⟩)
        have himage := hreaches.mem_image hf hmem
        exact mem_passCells_cons.2
          (.inl ⟨_, List.mem_singleton.2 rfl, List.mem_cons_of_mem _ himage⟩)
      · exact mem_passCells_cons.2
          (.inr (passCells_mono (popCells_push_subset hfs hpops hr hc hj) hmem))

/-- **The pops of a situation** are the ends of the runs that take its cell. -/
theorem mem_popsOf_iff {s : Situation} (hs : s.position ≤ word.length) :
    q ∈ (popsOf fs).image s ↔ IsPop rules word s q := by
  constructor
  · exact within_popsOf hfs s q
  · intro hrun
    have hmem := mem_popCells_of_run hfs (isStable_popsOf _) hrun hs rfl
    obtain ⟨p, hp, hq⟩ := mem_popCell.1 hmem
    obtain rfl := List.mem_singleton.1 hp
    exact hq

/-- **What is reached from a point with a given cell** are the ends of the runs that begin
there. -/
theorem mem_reached_iff (hp : p.position ≤ word.length) :
    q ∈ reached (reachesOf fs (popsOf fs)) z p ↔
      ∃ cells, Rule.Run rules word ⟨p, [z]⟩ ⟨q, cells⟩ := by
  constructor
  · intro hq
    rcases List.mem_cons.1 hq with rfl | hq
    · exact ⟨[z], .refl _⟩
    · exact within_reachesOf hfs _ q hq
  · rintro ⟨cells, hrun⟩
    cases hrun with
    | refl => exact List.mem_cons_self ..
    | head hstep hrest =>
      cases hstep with
      | use _ hr hj =>
        have hmem := mem_passCells_of_run hfs (isStable_popsOf _) (isStable_reachesOf _) hrest
          (nextPosition?_le hp hj)
        rw [List.append_nil] at hmem
        have hf := (hfs _).2 (mem_firings.2 ⟨_, hr, _, _, hp, hj, rfl⟩)
        exact List.mem_cons_of_mem _ ((isStable_reachesOf _).mem_image hf hmem)

end Sweeps

end Pushdown
end LanguageForms
