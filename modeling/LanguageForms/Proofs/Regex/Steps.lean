/-
# What the steps of the construction show

The automaton of an expression is put together from fragments, one for every node of
the syntax tree, parts before the whole.  Where the numbers of a fragment's states
begin is known from the nodes before it (`Regex.placements`), and then a step shows
the fragment of its node just as if it had been built alone (`steps_build`).  So there
is one step for every node (`length_steps_build`), and what holds of all fragments
holds of everything that is shown.

The ends of a fragment's transitions are its own states, and its labels are symbols of
its expression; a part of an expression has no other symbols than the whole.  So all
the automata that are shown fit together (`wellFormed_of_shows_toAutomaton`).
-/
import LanguageForms.Automaton.Obtained
import LanguageForms.Proofs.Regex.Automaton
import LanguageForms.Regex.Nodes

namespace LanguageForms
namespace Regex

variable {alphabet : SortedSet Char} {r : Regex} {n : Nat} {c : Char}

/-! ### Where the fragments are -/

/-- A node, and the number from which the states of its fragment are numbered. -/
structure Placement where
  node : Node
  first : Nat
deriving DecidableEq

namespace Placement

/-- The placement as it is seen from one level further up. -/
def under (t : Turn) (p : Placement) : Placement := ⟨p.node.under t, p.first⟩

/-- The fragment that is built for the node. -/
def fragment (alphabet : SortedSet Char) (p : Placement) : Fragment :=
  (build alphabet p.node.expression p.first).1

/-- The step that shows the fragment. -/
def entry (alphabet : SortedSet Char) (p : Placement) : Trace.Entry :=
  fragmentEntry alphabet p.node.expression (p.fragment alphabet)

end Placement

/-- The nodes in post-order with their fragments, all states numbered from `n` on. -/
def placements : Regex → Nat → List Placement
  | symbol c, n => [⟨⟨[], symbol c⟩, n⟩]
  | epsilon, n => [⟨⟨[], epsilon⟩, n⟩]
  | union l r, n =>
    (l.placements n).map (.under .left) ++
      (r.placements (n + l.stateCount)).map (.under .right) ++ [⟨⟨[], union l r⟩, n⟩]
  | concat l r, n =>
    (l.placements n).map (.under .left) ++
      (r.placements (n + l.stateCount)).map (.under .right) ++ [⟨⟨[], concat l r⟩, n⟩]
  | star r, n => (r.placements n).map (.under .left) ++ [⟨⟨[], star r⟩, n⟩]

/-- The turns that are put in front of the addresses do not matter for what is shown. -/
theorem map_entry_under (alphabet : SortedSet Char) (t : Turn) (ps : List Placement) :
    (ps.map (Placement.under t)).map (Placement.entry alphabet) =
      ps.map (Placement.entry alphabet) :=
  List.map_map

/-- The nodes of placements from one level further up are the nodes from there. -/
theorem map_node_under (t : Turn) (ps : List Placement) :
    (ps.map (Placement.under t)).map Placement.node =
      (ps.map Placement.node).map (Node.under t) := by
  rw [List.map_map, List.map_map]
  rfl

/-- **Every node has its fragment**, in the order of the nodes. -/
theorem map_node_placements (r : Regex) (n : Nat) :
    (r.placements n).map Placement.node = r.nodes := by
  induction r generalizing n with
  | symbol c => rfl
  | epsilon => rfl
  | union l r ihl ihr =>
    simp only [placements, nodes, List.map_append, map_node_under, ihl, ihr]
    rfl
  | concat l r ihl ihr =>
    simp only [placements, nodes, List.map_append, map_node_under, ihl, ihr]
    rfl
  | star r ih =>
    simp only [placements, nodes, List.map_append, map_node_under, ih]
    rfl

/-- **The steps** show the fragments of the nodes, one after the other. -/
theorem steps_build (alphabet : SortedSet Char) (r : Regex) (n : Nat) :
    (build alphabet r n).2 = (r.placements n).map (Placement.entry alphabet) := by
  induction r generalizing n with
  | symbol c => rfl
  | epsilon => rfl
  | union l r ihl ihr =>
    rw [build, placements, List.map_append, List.map_append, map_entry_under, map_entry_under,
      ← ihl, ← ihr]
    rfl
  | concat l r ihl ihr =>
    rw [build, placements, List.map_append, List.map_append, map_entry_under, map_entry_under,
      ← ihl, ← ihr]
    rfl
  | star r ih =>
    rw [build, placements, List.map_append, map_entry_under, ← ih]
    rfl

/-- There is one step for every node. -/
theorem length_steps_build (alphabet : SortedSet Char) (r : Regex) (n : Nat) :
    (build alphabet r n).2.length = r.size := by
  rw [steps_build, List.length_map, ← length_nodes, ← map_node_placements r n, List.length_map]

/-! ### The symbols of the fragments -/

/-- The nodes below a node with two parts are those of the parts and the node itself. -/
theorem mem_nodes_of_parts {l r whole : Regex} {m : Node}
    (hm : m ∈ l.nodes.map (Node.under .left) ++ r.nodes.map (Node.under .right) ++ [⟨[], whole⟩]) :
    (∃ k ∈ l.nodes, m = k.under .left) ∨ (∃ k ∈ r.nodes, m = k.under .right) ∨
      m = ⟨[], whole⟩ := by
  rcases List.mem_append.1 hm with hm | hm
  · rcases List.mem_append.1 hm with hm | hm
    · obtain ⟨k, hk, rfl⟩ := List.mem_map.1 hm
      exact .inl ⟨k, hk, rfl⟩
    · obtain ⟨k, hk, rfl⟩ := List.mem_map.1 hm
      exact .inr (.inl ⟨k, hk, rfl⟩)
  · exact .inr (.inr (List.mem_singleton.1 hm))

/-- A node has no other symbols than the whole expression. -/
theorem symbols_of_mem_nodes {m : Node} (hm : m ∈ r.nodes) (hc : c ∈ m.expression.symbols) :
    c ∈ r.symbols := by
  induction r generalizing m with
  | symbol d =>
    obtain rfl := List.mem_singleton.1 hm
    exact hc
  | epsilon =>
    obtain rfl := List.mem_singleton.1 hm
    exact hc
  | union l r ihl ihr =>
    rcases mem_nodes_of_parts hm with ⟨k, hk, rfl⟩ | ⟨k, hk, rfl⟩ | rfl
    · exact List.mem_append_left _ (ihl hk hc)
    · exact List.mem_append_right _ (ihr hk hc)
    · exact hc
  | concat l r ihl ihr =>
    rcases mem_nodes_of_parts hm with ⟨k, hk, rfl⟩ | ⟨k, hk, rfl⟩ | rfl
    · exact List.mem_append_left _ (ihl hk hc)
    · exact List.mem_append_right _ (ihr hk hc)
    · exact hc
  | star r ih =>
    rcases List.mem_append.1 hm with hm | hm
    · obtain ⟨k, hk, rfl⟩ := List.mem_map.1 hm
      exact ih hk hc
    · obtain rfl := List.mem_singleton.1 hm
      exact hc

/-- **A fragment reads the symbols of its expression** and no others. -/
theorem symbol_of_mem_build {t : Transition} (ht : t ∈ (build alphabet r n).1.transitions)
    (hc : t.label = .symbol c) : c ∈ r.symbols := by
  induction r generalizing n with
  | symbol d =>
    rw [SortedSet.mem_singleton.1 ht] at hc
    exact List.mem_singleton.2 (Label.symbol.inj hc).symm
  | epsilon =>
    rw [SortedSet.mem_singleton.1 ht] at hc
    cases hc
  | union l r ihl ihr =>
    rcases Fragment.mem_transitions_inParallel.1 ht with ht | ht | rfl | rfl | rfl | rfl
    · exact List.mem_append_left _ (ihl ht)
    · exact List.mem_append_right _ (ihr ht)
    all_goals cases hc
  | concat l r ihl ihr =>
    rcases Fragment.mem_transitions_inSequence.1 ht with rfl | ht | ht
    · cases hc
    · exact List.mem_append_left _ (ihl ht)
    · exact List.mem_append_right _ (ihr ht)
  | star r ih =>
    rcases Fragment.mem_transitions_repeated.1 ht with ht | rfl | rfl | rfl | rfl
    · exact ih ht
    all_goals cases hc

end Regex

/-! ### The automata that are shown -/

/-- A fragment whose transitions connect its own states fits together as an automaton over an
alphabet with its symbols. -/
theorem Fragment.Fits.wellFormed {f : Fragment} {alphabet : SortedSet Char} (h : f.Fits)
    (hsymbols : ∀ t ∈ f.transitions, ∀ c, t.label = .symbol c → c ∈ alphabet) :
    (f.toAutomaton alphabet).WellFormed where
  start := h.start
  accepting q hq := by
    rw [SortedSet.mem_singleton.1 hq]
    exact h.accept
  source := h.source
  symbol := hsymbols
  target := h.target

namespace Regex

variable {r : Regex} {a : Automaton}

/-- The fragment of a node fits together over the alphabet of the whole expression. -/
theorem wellFormed_placement {n : Nat} {p : Placement} (hp : p ∈ r.placements n) :
    ((p.fragment r.alphabet).toAutomaton r.alphabet).WellFormed := by
  have hnode : p.node ∈ r.nodes := map_node_placements r n ▸ List.mem_map_of_mem hp
  refine (fits_build _ _ _).wellFormed fun t ht c hc => ?_
  exact mem_alphabet.2 (symbols_of_mem_nodes hnode (symbol_of_mem_build ht hc))

/-- **The parts fit together** in the automaton of an expression. -/
theorem wellFormed_toAutomaton (r : Regex) : r.toAutomaton.1.WellFormed :=
  (fits_build _ _ _).wellFormed fun _ ht _ hc => mem_alphabet.2 (symbol_of_mem_build ht hc)

/-- What the trace shows is the automaton of the expression, or that of a node. -/
theorem shows_toAutomaton (h : r.toAutomaton.2.Shows a) :
    a = r.toAutomaton.1 ∨
      ∃ p ∈ r.placements 0, a = (p.fragment r.alphabet).toAutomaton r.alphabet := by
  obtain ⟨e, he, ha⟩ := h.exists_step
  rcases List.mem_append.1 he with he | he
  · rw [steps_build] at he
    obtain ⟨p, hp, rfl⟩ := List.mem_map.1 he
    exact .inr ⟨p, hp, Trace.Entry.eq_of_showing ha⟩
  · rw [List.mem_singleton.1 he] at ha
    exact .inl (Trace.Entry.eq_of_showing ha)

/-- **The parts fit together** in everything that is shown on the way. -/
theorem wellFormed_of_shows_toAutomaton (h : r.toAutomaton.2.Shows a) : a.WellFormed := by
  rcases shows_toAutomaton h with rfl | ⟨p, hp, rfl⟩
  · exact wellFormed_toAutomaton r
  · exact wellFormed_placement hp

/-- Everything that is shown is nondeterministic. -/
theorem kind_of_shows_toAutomaton (h : r.toAutomaton.2.Shows a) :
    a.kind = .nondeterministic := by
  rcases shows_toAutomaton h with rfl | ⟨p, hp, rfl⟩ <;> rfl

end Regex
end LanguageForms
