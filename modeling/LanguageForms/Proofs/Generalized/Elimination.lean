/-
# Eliminating a state keeps the words between the others

`Generalized.Edge g p w q` says that the edge from `p` to `q` carries an
expression for `w`, whichever expression that is.  Every operation has one
equivalence that says what the edges read afterwards; for the elimination of a
state it is `edge_eliminate`: what the edge read before, and a word into the
state, any number of laps around its loop, and a word out of it.

Paths are then compared edge by edge (`path_eliminate_iff`).  A path that enters
the eliminated state has to leave it again, so the induction also says what a
path from that state looks like: laps, an edge out of it, and a path that needs
it no more (`path_eliminate`).
-/
import LanguageForms.Generalized.Path
import LanguageForms.Proofs.Regex.Simplify

namespace LanguageForms
namespace Generalized

/-- The edge from one state to another carries an expression for the word. -/
def Edge (g : Generalized) (p : State) (w : List Char) (q : State) : Prop :=
  ∃ e, g.edge? p q = some e ∧ e.Matches w

/-- The word is read in any number of laps around the loop of a state. -/
inductive Laps (g : Generalized) (s : State) : List Char → Prop where
  | nil : Laps g s []
  | cons {u v : List Char} : g.Edge s u s → Laps g s v → Laps g s (u ++ v)

variable {g : Generalized} {p q s : State} {u v w : List Char} {r : Regex}

/-- An edge in front of a path makes a path. -/
theorem Path.step (he : g.Edge p u s) (h : g.Path s v q) : g.Path p (u ++ v) q := by
  obtain ⟨e, he, hu⟩ := he
  exact .cons he hu h

/-- An edge is a path. -/
theorem Path.ofEdge (he : g.Edge p u q) : g.Path p u q := by
  obtain ⟨e, he, hu⟩ := he
  exact .single he hu

/-- A path is empty, or an edge and a path. -/
theorem path_iff :
    g.Path p w q ↔ (p = q ∧ w = []) ∨
      ∃ m u v, w = u ++ v ∧ g.Edge p u m ∧ g.Path m v q := by
  constructor
  · intro h
    cases h with
    | nil => exact .inl ⟨rfl, rfl⟩
    | cons he hu hpath => exact .inr ⟨_, _, _, rfl, ⟨_, he, hu⟩, hpath⟩
  · rintro (⟨rfl, rfl⟩ | ⟨m, u, v, rfl, he, hpath⟩)
    · exact .nil p
    · exact .step he hpath

/-- Laps are paths from a state to itself. -/
theorem Laps.path (h : g.Laps s v) : g.Path s v s := by
  induction h with
  | nil => exact .nil s
  | cons he _ ih => exact .step he ih

/-! ### What the edges read -/

/-- Adding to an edge changes that edge only. -/
theorem edge?_addEdge {p' q' : State} :
    (g.addEdge p q r).edge? p' q' =
      if (p, q) = (p', q') then some (g.merged p q r) else g.edge? p' q' :=
  SortedMap.get?_insert

/-- A merged edge reads what it read before and what is added. -/
theorem matches_merged : (g.merged p q r).Matches w ↔ g.Edge p w q ∨ r.Matches w := by
  unfold merged Edge
  cases g.edge? p q with
  | none => simp
  | some e => simp [Regex.matches_unite_iff]

/-- Adding an expression to an edge adds its words. -/
theorem edge_addEdge {p' q' : State} :
    (g.addEdge p q r).Edge p' w q' ↔ g.Edge p' w q' ∨ (p' = p ∧ q' = q ∧ r.Matches w) := by
  rw [Edge, edge?_addEdge]
  by_cases h : (p, q) = (p', q')
  · obtain ⟨rfl, rfl⟩ := Prod.mk.inj h
    simp [matches_merged]
  · rw [if_neg h]
    have hne : ¬ (p' = p ∧ q' = q) := fun ⟨hp, hq⟩ => h (by rw [hp, hq])
    exact (or_iff_left fun ⟨hp, hq, _⟩ => hne ⟨hp, hq⟩).symm

/-- Adding to several edges adds the words of each expression to its edge. -/
theorem edge_addEdges {l : List (State × State × Regex)} :
    (g.addEdges l).1.Edge p w q ↔ g.Edge p w q ∨ ∃ r, (p, q, r) ∈ l ∧ r.Matches w := by
  induction l generalizing g with
  | nil => simp [addEdges]
  | cons e l ih =>
    obtain ⟨p', q', r'⟩ := e
    refine ih.trans ?_
    rw [edge_addEdge, or_assoc]
    refine or_congr_right ⟨?_, ?_⟩
    · rintro (⟨rfl, rfl, hw⟩ | ⟨r, hr, hw⟩)
      · exact ⟨r', List.mem_cons_self .., hw⟩
      · exact ⟨r, List.mem_cons_of_mem _ hr, hw⟩
    · rintro ⟨r, hr, hw⟩
      rcases List.mem_cons.1 hr with heq | hr
      · obtain ⟨rfl, rfl, rfl⟩ : p = p' ∧ q = q' ∧ r = r' := by simpa using heq
        exact .inl ⟨rfl, rfl, hw⟩
      · exact .inr ⟨r, hr, hw⟩

/-- Removing a state leaves the edges between the other states. -/
theorem edge?_remove : (g.remove s).edge? p q = if p ≠ s ∧ q ≠ s then g.edge? p q else none := by
  have hedge : (g.remove s).edge? p q =
      if (!decide (p = s) && !decide (q = s)) = true then g.edge? p q else none :=
    SortedMap.get?_filter
  rw [hedge]
  simp

/-- Removing a state leaves what the edges between the other states read. -/
theorem edge_remove : (g.remove s).Edge p w q ↔ p ≠ s ∧ q ≠ s ∧ g.Edge p w q := by
  rw [Edge, edge?_remove]
  by_cases hpq : p ≠ s ∧ q ≠ s
  · rw [if_pos hpq]
    exact ⟨fun he => ⟨hpq.1, hpq.2, he⟩, fun he => he.2.2⟩
  · rw [if_neg hpq]
    exact ⟨nofun, fun he => (hpq ⟨he.1, he.2.1⟩).elim⟩

/-- The incoming edges of a state begin at other states. -/
theorem mem_incoming : (p, r) ∈ g.incoming s ↔ p ≠ s ∧ g.edge? p s = some r := by
  rw [edge?, SortedMap.get?_eq_some_iff]
  simp only [incoming, List.mem_map, List.mem_filter, Bool.and_eq_true, decide_eq_true_eq,
    Bool.not_eq_true', decide_eq_false_iff_not]
  constructor
  · rintro ⟨⟨⟨_, _⟩, _⟩, ⟨hmem, rfl, hne⟩, heq⟩
    obtain ⟨rfl, rfl⟩ := Prod.mk.inj heq
    exact ⟨hne, hmem⟩
  · rintro ⟨hne, hmem⟩
    exact ⟨_, ⟨hmem, rfl, hne⟩, rfl⟩

/-- The outgoing edges of a state lead to other states. -/
theorem mem_outgoing : (q, r) ∈ g.outgoing s ↔ q ≠ s ∧ g.edge? s q = some r := by
  rw [edge?, SortedMap.get?_eq_some_iff]
  simp only [outgoing, List.mem_map, List.mem_filter, Bool.and_eq_true, decide_eq_true_eq,
    Bool.not_eq_true', decide_eq_false_iff_not]
  constructor
  · rintro ⟨⟨⟨_, _⟩, _⟩, ⟨hmem, rfl, hne⟩, heq⟩
    obtain ⟨rfl, rfl⟩ := Prod.mk.inj heq
    exact ⟨hne, hmem⟩
  · rintro ⟨hne, hmem⟩
    exact ⟨_, ⟨hmem, rfl, hne⟩, rfl⟩

/-- Without a loop there are no laps. -/
theorem laps_iff_of_none (h : g.edge? s s = none) : g.Laps s v ↔ v = [] := by
  constructor
  · intro hlaps
    cases hlaps with
    | nil => rfl
    | cons he _ =>
      obtain ⟨e, he, -⟩ := he
      rw [h] at he
      cases he
  · rintro rfl
    exact .nil

/-- The laps around a loop read the star of its expression. -/
theorem laps_iff_of_some (h : g.edge? s s = some r) : g.Laps s v ↔ r.star.Matches v := by
  constructor
  · intro hlaps
    induction hlaps with
    | nil => exact .starNil
    | cons he _ ih =>
      obtain ⟨e, he, hu⟩ := he
      obtain rfl := Option.some.inj (h.symm.trans he)
      exact .starCons hu ih
  · exact Regex.Matches.star_induction .nil fun u v hu hv => .cons ⟨r, h, hu⟩ hv

/-- A way past a state reads an edge to it, laps around it, and an edge from it. -/
theorem matches_through {into out : Regex} :
    (through (g.edge? s s) into out).Matches w ↔
      ∃ u v x, w = u ++ (v ++ x) ∧ into.Matches u ∧ g.Laps s v ∧ out.Matches x := by
  cases h : g.edge? s s with
  | none =>
    simp only [through, Regex.matches_append_iff, laps_iff_of_none h]
    constructor
    · rintro ⟨u, x, rfl, hu, hx⟩
      exact ⟨u, [], x, rfl, hu, rfl, hx⟩
    · rintro ⟨u, v, x, rfl, hu, rfl, hx⟩
      exact ⟨u, x, rfl, hu, hx⟩
  | some r =>
    simp only [through, Regex.matches_append_iff, Regex.matches_iterate_iff, laps_iff_of_some h]
    constructor
    · rintro ⟨_, x, rfl, ⟨u, v, rfl, hu, hv⟩, hx⟩
      exact ⟨u, v, x, List.append_assoc u v x, hu, hv, hx⟩
    · rintro ⟨u, v, x, rfl, hu, hv, hx⟩
      exact ⟨u ++ v, x, (List.append_assoc u v x).symm, ⟨u, v, rfl, hu, hv⟩, hx⟩

/-- There is a way past a state from each state before it to each state behind it. -/
theorem mem_detours :
    (p, q, r) ∈ g.detours s ↔ p ≠ s ∧ q ≠ s ∧ ∃ into out, g.edge? p s = some into ∧
      g.edge? s q = some out ∧ r = through (g.edge? s s) into out := by
  simp only [detours, List.mem_flatMap, List.mem_map]
  constructor
  · rintro ⟨⟨p', into⟩, hinto, ⟨q', out⟩, hout, heq⟩
    obtain ⟨rfl, rfl, rfl⟩ : p' = p ∧ q' = q ∧ through (g.edge? s s) into out = r := by
      simpa using heq
    obtain ⟨hp, hinto⟩ := mem_incoming.1 hinto
    obtain ⟨hq, hout⟩ := mem_outgoing.1 hout
    exact ⟨hp, hq, into, out, hinto, hout, rfl⟩
  · rintro ⟨hp, hq, into, out, hinto, hout, rfl⟩
    exact ⟨(p, into), mem_incoming.2 ⟨hp, hinto⟩, (q, out), mem_outgoing.2 ⟨hq, hout⟩, rfl⟩

/-- **What the edges read after a state is eliminated**: what they read before, and what is read
on a way through that state. -/
theorem edge_eliminate :
    (g.eliminate s).1.Edge p w q ↔ p ≠ s ∧ q ≠ s ∧ (g.Edge p w q ∨
      ∃ u v x, w = u ++ (v ++ x) ∧ g.Edge p u s ∧ g.Laps s v ∧ g.Edge s x q) := by
  rw [eliminate, edge_addEdges, edge_remove]
  constructor
  · rintro (⟨hp, hq, he⟩ | ⟨r, hr, hw⟩)
    · exact ⟨hp, hq, .inl he⟩
    · obtain ⟨hp, hq, into, out, hinto, hout, rfl⟩ := mem_detours.1 hr
      obtain ⟨u, v, x, rfl, hu, hv, hx⟩ := matches_through.1 hw
      exact ⟨hp, hq, .inr ⟨u, v, x, rfl, ⟨into, hinto, hu⟩, hv, ⟨out, hout, hx⟩⟩⟩
  · rintro ⟨hp, hq, he | ⟨u, v, x, rfl, ⟨into, hinto, hu⟩, hv, ⟨out, hout, hx⟩⟩⟩
    · exact .inl ⟨hp, hq, he⟩
    · exact .inr ⟨_, mem_detours.2 ⟨hp, hq, into, out, hinto, hout, rfl⟩,
        matches_through.2 ⟨u, v, x, rfl, hu, hv, hx⟩⟩

/-! ### Paths -/

/-- An edge that is written in an elimination stands for a path. -/
theorem path_of_edge_eliminate (he : (g.eliminate s).1.Edge p w q) : g.Path p w q := by
  obtain ⟨-, -, he | ⟨u, v, x, rfl, hinto, hlaps, hout⟩⟩ := edge_eliminate.1 he
  · exact .ofEdge he
  · exact .step hinto (hlaps.path.append (.ofEdge hout))

/-- **A path after the elimination** was one before it. -/
theorem path_of_path_eliminate (h : (g.eliminate s).1.Path p w q) : g.Path p w q := by
  induction h with
  | nil => exact .nil _
  | cons he hu _ ih => exact (path_of_edge_eliminate ⟨_, he, hu⟩).append ih

/-- A path to another state can do without the eliminated one; a path from the eliminated state
begins with laps and an edge out of it. -/
theorem path_eliminate (h : g.Path p w q) (hq : q ≠ s) :
    (p ≠ s → (g.eliminate s).1.Path p w q) ∧
      (p = s → ∃ v x m y, w = v ++ (x ++ y) ∧ g.Laps s v ∧ g.Edge s x m ∧ m ≠ s ∧
        (g.eliminate s).1.Path m y q) := by
  induction h with
  | nil q => exact ⟨fun _ => .nil q, fun hp => absurd hp hq⟩
  | @cons p m q e u v he hu _ ih =>
    have hedge : g.Edge p u m := ⟨e, he, hu⟩
    obtain ⟨hother, hself⟩ := ih hq
    by_cases hm : m = s
    · obtain ⟨v, x, m', y, rfl, hlaps, hout, hm', hpath⟩ := hself hm
      subst hm
      refine ⟨fun hp => ?_, fun hp => ?_⟩
      · have hdetour : (g.eliminate m).1.Edge p (u ++ (v ++ x)) m' :=
          edge_eliminate.2 ⟨hp, hm', .inr ⟨u, v, x, rfl, hedge, hlaps, hout⟩⟩
        have hwhole := Path.step hdetour hpath
        rwa [List.append_assoc, List.append_assoc] at hwhole
      · subst hp
        exact ⟨u ++ v, x, m', y, (List.append_assoc u v (x ++ y)).symm, .cons hedge hlaps, hout,
          hm', hpath⟩
    · refine ⟨fun hp => ?_, fun hp => ?_⟩
      · exact .step (edge_eliminate.2 ⟨hp, hm, .inl hedge⟩) (hother hm)
      · subst hp
        exact ⟨[], u, m, v, rfl, .nil, hedge, hm, hother hm⟩

/-- **Eliminating a state keeps the words between the others.** -/
theorem path_eliminate_iff (hp : p ≠ s) (hq : q ≠ s) :
    (g.eliminate s).1.Path p w q ↔ g.Path p w q :=
  ⟨path_of_path_eliminate, fun h => (path_eliminate h hq).1 hp⟩

end Generalized
end LanguageForms
