/-
# What the elimination of a state writes, and what it leaves alone

A state is eliminated by writing an edge for every way past it.  No two of these ways
begin and end at the same states (`nodup_detours`), since the edges of an automaton
are listed by where they lead.  So every edge is written once, what is told about it
is what it carries in the end (`edge?_of_mem_addEdges`), and the other edges are left
alone (`edge?_addEdges_of_not_mem`).

`Bypasses` says what an elimination does, for all automata and all states, and
`bypasses_eliminate` that it does it.  Words are compared between all states that are
left, and for paths with at least one edge (`way_eliminate_iff`): the empty path from
a state to itself is there before and after.
-/
import LanguageForms.Proofs.Generalized.Represents
import Mathlib.Data.List.ProdSigma

namespace LanguageForms
namespace Generalized

/-- Where an edge with its expression begins and ends. -/
def ends (e : State × State × Regex) : State × State := (e.1, e.2.1)

/-- All edges lead from states of the automaton to states of it. -/
def Connected (g : Generalized) : Prop :=
  ∀ p q r, g.edge? p q = some r → p ∈ g.states ∧ q ∈ g.states

/-- The second automaton is the first one with edges past a state in place of that state, and the
list tells which edges were written. -/
structure Bypasses (g : Generalized) (s : State) (h : Generalized)
    (written : List (State × State × Regex)) : Prop where
  states : h.states.toList = g.states.toList.erase s
  start : h.start = g.start
  accept : h.accept = g.accept
  connected : g.Connected → h.Connected
  gone : ∀ p, h.edge? p s = none ∧ h.edge? s p = none
  way_iff : ∀ p q w, p ≠ s → q ≠ s → (h.Way p w q ↔ g.Way p w q)
  untouched : ∀ p q, p ≠ s → q ≠ s → (g.edge? p s = none ∨ g.edge? s q = none) →
    h.edge? p q = g.edge? p q
  nodup : (written.map ends).Nodup
  mem_iff : ∀ p q, (p, q) ∈ written.map ends ↔
    p ≠ s ∧ q ≠ s ∧ g.edge? p s ≠ none ∧ g.edge? s q ≠ none
  carried : ∀ p q r, (p, q, r) ∈ written → h.edge? p q = some r

variable {g : Generalized} {p q s : State} {u v w : List Char} {r : Regex}
  {l : List (State × State × Regex)}

/-! ### The edges that are written -/

/-- What is told about the edges names them in the order in which they are written. -/
theorem map_ends_addEdges (g : Generalized) (l : List (State × State × Regex)) :
    (g.addEdges l).2.map ends = l.map ends := by
  induction l generalizing g with
  | nil => rfl
  | cons e l ih =>
    obtain ⟨p, q, r⟩ := e
    exact congrArg ((p, q) :: ·) (ih _)

/-- An edge that is not written is left alone. -/
theorem edge?_addEdges_of_not_mem (h : ¬ (p, q) ∈ l.map ends) :
    (g.addEdges l).1.edge? p q = g.edge? p q := by
  induction l generalizing g with
  | nil => rfl
  | cons e l ih =>
    obtain ⟨p', q', r'⟩ := e
    rw [List.map_cons, List.mem_cons, not_or] at h
    obtain ⟨hne, hl⟩ := h
    have hrest : ((g.addEdge p' q' r').addEdges l).1.edge? p q =
        (g.addEdge p' q' r').edge? p q := ih hl
    have hkept : (g.addEdge p' q' r').edge? p q = g.edge? p q := by
      rw [edge?_addEdge, if_neg fun heq => hne heq.symm]
    exact hrest.trans hkept

/-- What is told about an edge is what it carries in the end, if no edge is written twice. -/
theorem edge?_of_mem_addEdges (hl : (l.map ends).Nodup) (h : (p, q, r) ∈ (g.addEdges l).2) :
    (g.addEdges l).1.edge? p q = some r := by
  induction l generalizing g with
  | nil => cases h
  | cons e l ih =>
    obtain ⟨p', q', r'⟩ := e
    rw [List.map_cons, List.nodup_cons] at hl
    obtain ⟨hnew, hl⟩ := hl
    rcases List.mem_cons.1 h with heq | h
    · obtain ⟨rfl, rfl, rfl⟩ : p = p' ∧ q = q' ∧ r = g.merged p' q' r' := by simpa using heq
      have hrest : ((g.addEdge p q r').addEdges l).1.edge? p q =
          (g.addEdge p q r').edge? p q := edge?_addEdges_of_not_mem hnew
      rw [edge?_addEdge, if_pos rfl] at hrest
      exact hrest
    · exact ih hl h

/-! ### The ways past a state -/

/-- Edges that a test singles out by one end are told apart by the other end. -/
theorem nodup_map_filter (g : Generalized) {test : (State × State) × Regex → Bool}
    {f : State × State → State}
    (hf : ∀ d e, test d = true → test e = true → f d.1 = f e.1 → d.1 = e.1) :
    ((g.edges.entries.filter test).map fun e => f e.1).Nodup := by
  rw [List.Nodup, List.pairwise_map]
  refine (g.edges.sorted.filter test).imp_of_mem fun hd he hbefore heq => ?_
  exact ne_of_before hbefore (hf _ _ (List.mem_filter.1 hd).2 (List.mem_filter.1 he).2 heq)

/-- No two edges into a state come from the same state. -/
theorem nodup_incoming (g : Generalized) (s : State) : ((g.incoming s).map Prod.fst).Nodup := by
  rw [incoming, List.map_map]
  refine g.nodup_map_filter (f := Prod.fst) fun d e hd he heq => ?_
  simp only [Bool.and_eq_true, decide_eq_true_eq] at hd he
  exact Prod.ext heq (hd.1.trans he.1.symm)

/-- No two edges out of a state lead to the same state. -/
theorem nodup_outgoing (g : Generalized) (s : State) : ((g.outgoing s).map Prod.fst).Nodup := by
  rw [outgoing, List.map_map]
  refine g.nodup_map_filter (f := Prod.snd) fun d e hd he heq => ?_
  simp only [Bool.and_eq_true, decide_eq_true_eq] at hd he
  exact Prod.ext (hd.1.trans he.1.symm) heq

/-- The ways past a state lead from every state before it to every state behind it. -/
theorem map_ends_detours (g : Generalized) (s : State) :
    (g.detours s).map ends =
      (g.incoming s).map Prod.fst ×ˢ (g.outgoing s).map Prod.fst := by
  simp [detours, List.map_flatMap, List.flatMap_map, Function.comp_def, ends, SProd.sprod,
    List.product]

/-- **No two ways past a state** begin and end at the same states. -/
theorem nodup_detours (g : Generalized) (s : State) : ((g.detours s).map ends).Nodup := by
  rw [map_ends_detours]
  exact (nodup_incoming g s).product (nodup_outgoing g s)

/-- A way past a state leads from a state with an edge to it to a state with an edge from it. -/
theorem mem_map_ends_detours : (p, q) ∈ (g.detours s).map ends ↔
    p ≠ s ∧ q ≠ s ∧ g.edge? p s ≠ none ∧ g.edge? s q ≠ none := by
  rw [map_ends_detours, List.mem_product]
  simp only [List.mem_map, Prod.exists, exists_and_right, exists_eq_right, mem_incoming,
    mem_outgoing, Option.ne_none_iff_exists', exists_and_left]
  exact ⟨fun ⟨⟨hp, hinto⟩, hq, hout⟩ => ⟨hp, hq, hinto, hout⟩,
    fun ⟨hp, hq, hinto, hout⟩ => ⟨⟨hp, hinto⟩, hq, hout⟩⟩

/-! ### Paths with at least one edge -/

/-- Such a path is an edge and a path. -/
theorem way_iff : g.Way p w q ↔ ∃ m u v, w = u ++ v ∧ g.Edge p u m ∧ g.Path m v q := by
  constructor
  · rintro ⟨he, hu, hpath⟩
    exact ⟨_, _, _, rfl, ⟨_, he, hu⟩, hpath⟩
  · rintro ⟨m, u, v, rfl, ⟨e, he, hu⟩, hpath⟩
    exact .cons he hu hpath

/-- An edge and a path make a path with at least one edge. -/
theorem Way.ofEdge (he : g.Edge p u s) (h : g.Path s v q) : g.Way p (u ++ v) q :=
  way_iff.2 ⟨s, u, v, rfl, he, h⟩

/-- **The elimination of a state keeps the words** that paths with at least one edge spell between
the others. -/
theorem way_eliminate_iff (hp : p ≠ s) (hq : q ≠ s) :
    (g.eliminate s).1.Way p w q ↔ g.Way p w q := by
  constructor
  · intro h
    obtain ⟨m, u, v, rfl, he, hpath⟩ := way_iff.1 h
    have hrest : g.Path m v q := path_of_path_eliminate hpath
    -- the edge is one of before, or it stands for a way through the state
    obtain ⟨-, -, he | ⟨x, y, z, rfl, hinto, hlaps, hout⟩⟩ := edge_eliminate.1 he
    · exact .ofEdge he hrest
    · have hback : g.Path s (y ++ (z ++ v)) q := hlaps.path.append (.step hout hrest)
      rw [List.append_assoc, List.append_assoc]
      exact .ofEdge hinto hback
  · intro h
    obtain ⟨m, u, v, rfl, he, hpath⟩ := way_iff.1 h
    obtain ⟨hother, hself⟩ := path_eliminate hpath hq
    by_cases hm : m = s
    · -- the path leaves the state again, and the edge past it leads to where it leaves it
      obtain ⟨y, z, n, x, rfl, hlaps, hout, hn, hrest⟩ := hself hm
      subst hm
      have hdetour : (g.eliminate m).1.Edge p (u ++ (y ++ z)) n :=
        edge_eliminate.2 ⟨hp, hn, .inr ⟨u, y, z, rfl, he, hlaps, hout⟩⟩
      have hwhole := Way.ofEdge hdetour hrest
      rwa [List.append_assoc, List.append_assoc] at hwhole
    · exact .ofEdge (edge_eliminate.2 ⟨hp, hm, .inl he⟩) (hother hm)

/-! ### The elimination of a state -/

/-- No edge is left at an eliminated state. -/
theorem edge?_eliminate_eq_none (h : p = s ∨ q = s) : (g.eliminate s).1.edge? p q = none := by
  cases hr : (g.eliminate s).1.edge? p q with
  | none => rfl
  | some r =>
    obtain ⟨w, hw⟩ := r.exists_matches
    obtain ⟨hp, hq, -⟩ := edge_eliminate.1 ⟨r, hr, hw⟩
    exact (h.elim hp hq).elim

/-- An edge past which no way leads is left alone. -/
theorem edge?_eliminate_of_none (hp : p ≠ s) (hq : q ≠ s)
    (h : g.edge? p s = none ∨ g.edge? s q = none) :
    (g.eliminate s).1.edge? p q = g.edge? p q := by
  have hout : ¬ (p, q) ∈ (g.detours s).map ends := by
    rw [mem_map_ends_detours]
    rintro ⟨-, -, hinto, hback⟩
    exact h.elim hinto hback
  have hkept : (g.remove s).edge? p q = g.edge? p q := by
    rw [edge?_remove, if_pos ⟨hp, hq⟩]
  exact (edge?_addEdges_of_not_mem hout).trans hkept

/-- An elimination leaves no edge that leads nowhere. -/
theorem Connected.eliminate (h : g.Connected) : (g.eliminate s).1.Connected := by
  have hjoins : g.Joins (· ∈ g.states) (· ∈ g.states) := joins_iff.2 h
  intro p q r hr
  obtain ⟨⟨hp, hps⟩, hq, hqs⟩ := joins_iff.1 (hjoins.eliminate (s := s)) p q r hr
  rw [states_eliminate, DistinctList.mem_erase, DistinctList.mem_erase]
  exact ⟨⟨hp, hps⟩, hq, hqs⟩

/-- **The elimination of a state** takes it away with its edges, writes every edge past it once
and tells what it carries then, leaves all other edges alone, and keeps the words between all
states that are left. -/
theorem bypasses_eliminate (g : Generalized) (s : State) :
    g.Bypasses s (g.eliminate s).1 (g.eliminate s).2 where
  states := by
    rw [states_eliminate, g.states.nodup.erase_eq_filter]
    simp [DistinctList.erase, bne, Bool.beq_eq_decide_eq]
  start := start_eliminate
  accept := accept_eliminate
  connected := Connected.eliminate
  gone p := ⟨edge?_eliminate_eq_none (.inr rfl), edge?_eliminate_eq_none (.inl rfl)⟩
  way_iff p q w := way_eliminate_iff
  untouched p q := edge?_eliminate_of_none
  nodup := by
    rw [eliminate, map_ends_addEdges]
    exact nodup_detours g s
  mem_iff p q := by
    rw [eliminate, map_ends_addEdges]
    exact mem_map_ends_detours
  carried p q r := edge?_of_mem_addEdges (nodup_detours g s)

end Generalized
end LanguageForms
