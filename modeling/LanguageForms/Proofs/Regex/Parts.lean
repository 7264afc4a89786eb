/-
# The fragments of nodes lie in each other as the nodes do

What a turn leads to is a part of the expression, and it is known from where its
fragment is numbered (`Regex.part?`).  The numbers of a part lie among those of the
whole (`numbers_part`), those of two parts of one node apart
(`left_before_right`), and the transitions of a part are transitions of the whole
(`transitions_part`).  Following the addresses of two nodes from the root, they go
into the same part, or into different ones, or one of them ends; so the fragment of a
node contains those of the nodes below it, and otherwise two fragments have no state
in common (`fragments_of_nodes`).

With this every step of the construction shows an automaton for its node
(`toAutomaton_steps_of_nodes`).
-/
import LanguageForms.Proofs.Regex.Steps

namespace LanguageForms

/-- The states and transitions of the first automaton are among those of the second one. -/
structure Automaton.IsPartOf (a b : Automaton) : Prop where
  states : ∀ q ∈ a.states, q ∈ b.states
  transitions : ∀ t ∈ a.transitions, t ∈ b.transitions

/-- An automaton is part of itself. -/
theorem Automaton.IsPartOf.refl (a : Automaton) : a.IsPartOf a := ⟨fun _ h => h, fun _ h => h⟩

namespace Regex

variable {alphabet : SortedSet Char} {r s : Regex} {m n : Nat} {t : Turn} {p q : Placement}

/-! ### Parts -/

/-- What a turn leads to, and the number from which the states of its fragment are numbered. -/
def part? : Regex → Nat → Turn → Option (Regex × Nat)
  | union l _, n, .left => some (l, n)
  | union l r, n, .right => some (r, n + l.stateCount)
  | concat l _, n, .left => some (l, n)
  | concat l r, n, .right => some (r, n + l.stateCount)
  | star r, n, .left => some (r, n)
  | _, _, _ => none

/-- The numbers of a part are among those of the whole. -/
theorem numbers_part (h : r.part? n t = some (s, m)) :
    n ≤ m ∧ m + s.stateCount ≤ n + r.stateCount := by
  cases r <;> cases t <;> cases h <;> simp only [stateCount] <;> omega

/-- The numbers of the left part come before those of the right one. -/
theorem left_before_right {l : Regex} {k : Nat} (hl : r.part? n .left = some (l, k))
    (hr : r.part? n .right = some (s, m)) : k + l.stateCount ≤ m := by
  cases r <;> cases hl <;> cases hr <;> exact Nat.le_refl _

/-- The transitions of a part are transitions of the whole. -/
theorem transitions_part (h : r.part? n t = some (s, m)) :
    ∀ x ∈ (build alphabet s m).1.transitions, x ∈ (build alphabet r n).1.transitions := by
  intro x hx
  cases r with
  | symbol c => cases t <;> cases h
  | epsilon => cases t <;> cases h
  | union l r =>
    cases t <;> cases h
    · exact Fragment.mem_transitions_inParallel.2 (.inl hx)
    · exact Fragment.mem_transitions_inParallel.2 (.inr (.inl hx))
  | concat l r =>
    cases t <;> cases h
    · exact Fragment.mem_transitions_inSequence.2 (.inr (.inl hx))
    · exact Fragment.mem_transitions_inSequence.2 (.inr (.inr hx))
  | star r =>
    cases t <;> cases h
    exact Fragment.mem_transitions_repeated.2 (.inl hx)

/-- The placement is that of the root, or one in the part that its first turn leads to. -/
inductive IsPlaced : Regex → Nat → Placement → Prop where
  | root (r : Regex) (n : Nat) : IsPlaced r n ⟨⟨[], r⟩, n⟩
  | part {r s : Regex} {n m : Nat} {t : Turn} {p : Placement} :
      r.part? n t = some (s, m) → IsPlaced s m p → IsPlaced r n (p.under t)

/-- What is listed as a placement is one. -/
theorem isPlaced_of_mem (hp : p ∈ r.placements n) : IsPlaced r n p := by
  induction r generalizing n p with
  | symbol c =>
    obtain rfl := List.mem_singleton.1 hp
    exact .root _ n
  | epsilon =>
    obtain rfl := List.mem_singleton.1 hp
    exact .root _ n
  | star r ih =>
    rcases List.mem_append.1 hp with hp | hp
    · obtain ⟨k, hk, rfl⟩ := List.mem_map.1 hp
      exact .part (t := .left) rfl (ih hk)
    · obtain rfl := List.mem_singleton.1 hp
      exact .root _ n
  | _ l r ihl ihr =>
    rcases List.mem_append.1 hp with hp | hp
    · rcases List.mem_append.1 hp with hp | hp
      · obtain ⟨k, hk, rfl⟩ := List.mem_map.1 hp
        exact .part (t := .left) rfl (ihl hk)
      · obtain ⟨k, hk, rfl⟩ := List.mem_map.1 hp
        exact .part (t := .right) rfl (ihr hk)
    · obtain rfl := List.mem_singleton.1 hp
      exact .root _ n

/-! ### Placements -/

namespace Placement

/-- The number behind the last one of the fragment. -/
def next (p : Placement) : Nat := p.first + p.node.expression.stateCount

/-- The fragment of a node as an automaton. -/
def automaton (alphabet : SortedSet Char) (p : Placement) : Automaton :=
  (p.fragment alphabet).toAutomaton alphabet

/-- The automaton of a placement has the numbers between its first and its next one. -/
theorem mem_states_automaton {x : State} : x ∈ (p.automaton alphabet).states ↔
    ∃ i, (p.first ≤ i ∧ i < p.next) ∧ State.numbered i = x :=
  mem_states_build

/-- Fragments whose numbers lie apart have no state in common. -/
theorem disjoint_of_next_le (h : p.next ≤ q.first) :
    ∀ x ∈ (p.automaton alphabet).states, ¬ x ∈ (q.automaton alphabet).states :=
  not_mem_states_build h

end Placement

/-- The numbers of a node are among those of the whole. -/
theorem IsPlaced.numbers (h : IsPlaced r n p) : n ≤ p.first ∧ p.next ≤ n + r.stateCount := by
  induction h with
  | root r n => exact ⟨Nat.le_refl _, Nat.le_refl _⟩
  | @part r s n m t p hpart _ ih =>
    have hnumbers := numbers_part hpart
    show n ≤ p.first ∧ p.next ≤ n + r.stateCount
    omega

/-- The transitions of a node are transitions of the whole. -/
theorem IsPlaced.transitions (h : IsPlaced r n p) :
    ∀ x ∈ (p.fragment alphabet).transitions, x ∈ (build alphabet r n).1.transitions := by
  induction h with
  | root r n => exact fun x hx => hx
  | part hpart _ ih => exact fun x hx => transitions_part hpart x (ih x hx)

/-- The fragment of a node lies in that of the whole. -/
theorem IsPlaced.isPartOf (h : IsPlaced r n p) :
    (p.automaton alphabet).IsPartOf (Placement.automaton alphabet ⟨⟨[], r⟩, n⟩) where
  states x hx := by
    obtain ⟨i, hi, rfl⟩ := Placement.mem_states_automaton.1 hx
    have hnumbers := h.numbers
    refine Placement.mem_states_automaton.2 ⟨i, ?_, rfl⟩
    show n ≤ i ∧ i < n + r.stateCount
    omega
  transitions := h.transitions

/-- **Fragments lie in each other as the nodes do**: the one of a node below another is part of the
other's, and those of two nodes of which neither lies below the other have no state in common. -/
theorem fragments_of_nodes (hp : IsPlaced r n p) (hq : IsPlaced r n q) :
    (p.node.IsWithin q.node → (p.automaton alphabet).IsPartOf (q.automaton alphabet)) ∧
      (¬ p.node.IsWithin q.node → ¬ q.node.IsWithin p.node →
        ∀ x ∈ (p.automaton alphabet).states, ¬ x ∈ (q.automaton alphabet).states) := by
  induction hp generalizing q with
  | root r n =>
    refine ⟨fun hwithin => ?_, fun _ hwithin => absurd (List.nil_prefix) hwithin⟩
    cases hq with
    | root => exact .refl _
    | part => cases List.prefix_nil.1 hwithin
  | @part r s n m t p hpart hp ih =>
    cases hq with
    | root =>
      refine ⟨fun _ => (IsPlaced.part hpart hp).isPartOf, fun hwithin => ?_⟩
      exact absurd List.nil_prefix hwithin
    | @part _ s' _ m' t' q hpart' hq =>
      by_cases ht : t = t'
      · -- both addresses go on in the same part
        subst ht
        obtain ⟨rfl, rfl⟩ := Prod.mk.inj (Option.some.inj (hpart.symm.trans hpart'))
        have hunder : ∀ k l : Placement,
            (k.under t).node.IsWithin (l.under t).node ↔ k.node.IsWithin l.node := fun k l =>
          List.prefix_cons_inj t
        rw [hunder, hunder]
        exact ih hq
      · -- they part here, and so do the numbers
        have hnumbers := hp.numbers
        have hnumbers' := hq.numbers
        have happart : p.next ≤ q.first ∨ q.next ≤ p.first := by
          cases t <;> cases t'
          · exact absurd rfl ht
          · have hbefore := left_before_right hpart hpart'
            omega
          · have hbefore := left_before_right hpart' hpart
            omega
          · exact absurd rfl ht
        refine ⟨fun hwithin => ?_, fun _ _ => ?_⟩
        · exact absurd (List.cons_prefix_cons.1 hwithin).1.symm ht
        · rcases happart with happart | happart
          · exact Placement.disjoint_of_next_le (p := p) (q := q) happart
          · exact fun x hx hx' => Placement.disjoint_of_next_le (p := q) (q := p) happart x hx' hx

/-! ### Steps -/

/-- Entry `i` of the construction is about the `i`-th node in post-order, and shows the
automaton. -/
structure IsStepOf (r : Regex) (i : Nat) (m : Node) (a : Automaton) : Prop where
  node : r.nodes[i - 1]? = some m
  entry : ∃ e, r.toAutomaton.2.get? i = some e ∧
    e.label = "Build " ++ m.expression.operator ++ " for " ++ m.expression.text ∧
      e.snapshot = some (.automaton a)

/-- Behind the opening come the entries of the placements. -/
theorem get?_toAutomaton {i : Nat} (hp : (r.placements 0)[i]? = some p) :
    r.toAutomaton.2.get? (i + 1) = some (p.entry r.alphabet) := by
  have hentry : (build r.alphabet r 0).2[i]? = some (p.entry r.alphabet) := by
    rw [steps_build, List.getElem?_map, hp]
    rfl
  show ((build r.alphabet r 0).2 ++ [_])[i]? = _
  rw [List.getElem?_append_left (List.getElem?_eq_some_iff.1 hentry).1]
  exact hentry

/-- The node at a place of the list is that of the placement there. -/
theorem get?_nodes {i : Nat} (hp : (r.placements 0)[i]? = some p) : r.nodes[i]? = some p.node := by
  rw [← map_node_placements r 0, List.getElem?_map, hp]
  rfl

/-- The step of a placement is about its node and shows its fragment. -/
theorem isStepOf_placement {i : Nat} (hp : (r.placements 0)[i]? = some p) :
    r.IsStepOf (i + 1) p.node (p.automaton r.alphabet) :=
  ⟨get?_nodes hp, _, get?_toAutomaton hp, rfl, rfl⟩

/-- No other step is about a node. -/
theorem IsStepOf.exists_placement {i : Nat} {k : Node} {a : Automaton} (h : r.IsStepOf i k a) :
    ∃ p ∈ r.placements 0, k = p.node ∧ a = p.automaton r.alphabet := by
  obtain ⟨hnode, e, he, -, hshown⟩ := h
  cases i with
  | zero =>
    -- the opening shows nothing
    obtain rfl := Option.some.inj he
    cases hshown
  | succ i =>
    rw [Nat.add_sub_cancel, ← map_node_placements r 0, List.getElem?_map] at hnode
    obtain ⟨p, hp, rfl⟩ := Option.map_eq_some_iff.1 hnode
    obtain rfl := Option.some.inj ((get?_toAutomaton hp).symm.trans he)
    exact ⟨p, List.mem_of_getElem? hp, rfl, Trace.Entry.eq_of_showing hshown⟩

/-- **Every step of the construction shows an automaton for its node.**  The steps are those of the
nodes in post-order; each automaton accepts the language of its node; those of two nodes of which
neither lies below the other have no state in common, and that of a node contains those of the
nodes below it. -/
theorem toAutomaton_steps_of_nodes (r : Regex) :
    (∀ i, 1 ≤ i → i ≤ r.size → ∃ k a, r.IsStepOf i k a) ∧
      (∀ i k a, r.IsStepOf i k a → ∀ w, a.accepts w = true ↔ k.expression.Matches w) ∧
        ∀ i j k l a b, r.IsStepOf i k a → r.IsStepOf j l b →
          (¬ k.IsWithin l → ¬ l.IsWithin k → ∀ q ∈ a.states, ¬ q ∈ b.states) ∧
            (k.IsWithin l → a.IsPartOf b) := by
  refine ⟨fun i hi hsize => ?_, fun i k a hstep w => ?_, fun i j k l a b hk hl => ?_⟩
  · obtain ⟨i, rfl⟩ := Nat.exists_eq_add_of_le' hi
    have hlength : (r.placements 0).length = r.size := by
      rw [← length_steps_build r.alphabet r 0, steps_build, List.length_map]
    have hlt : i < (r.placements 0).length := by omega
    exact ⟨_, _, isStepOf_placement (List.getElem?_eq_getElem hlt)⟩
  · obtain ⟨p, -, rfl, rfl⟩ := hstep.exists_placement
    exact (Fragment.accepts_toAutomaton_iff _ _).trans (spells_build_iff _ _ _ w)
  · obtain ⟨p, hp, rfl, rfl⟩ := hk.exists_placement
    obtain ⟨q, hq, rfl, rfl⟩ := hl.exists_placement
    exact (fragments_of_nodes (isPlaced_of_mem hp) (isPlaced_of_mem hq)).symm

/-- The two sides of a union of equal expressions have steps of their own, and their automata have
no state in common. -/
theorem toAutomaton_steps_of_twins : ∃ k l a b,
    (union (star (symbol 'a')) (star (symbol 'a'))).IsStepOf 2 k a ∧
      (union (star (symbol 'a')) (star (symbol 'a'))).IsStepOf 4 l b ∧
        k.expression = l.expression ∧ ∀ q ∈ a.states, ¬ q ∈ b.states := by
  obtain ⟨hsteps, -, hparts⟩ := toAutomaton_steps_of_nodes
    (union (star (symbol 'a')) (star (symbol 'a')))
  obtain ⟨k, a, hk⟩ := hsteps 2 (by decide) (by decide)
  obtain ⟨l, b, hl⟩ := hsteps 4 (by decide) (by decide)
  obtain rfl := Option.some.inj hk.node
  obtain rfl := Option.some.inj hl.node
  exact ⟨_, _, a, b, hk, hl, rfl, (hparts 2 4 _ _ a b hk hl).1 (by decide) (by decide)⟩

end Regex
end LanguageForms
