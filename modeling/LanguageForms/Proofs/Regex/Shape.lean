/-
# The shape of the automaton of an expression

The number of states and the number of transitions depend only on how many nodes of
each kind the expression has:

| node | states | transitions |
| --- | ---: | ---: |
| symbol, `ε` | 2 | 1 |
| concatenation | 0 | 1 |
| union, star | 2 | 4 |

No state is made twice and no transition is made twice, so the sets in which they are
kept have as many members as were made (`two_mul_size`, `size_transitions_build`).  All
fragments are tidy (`tidy_build`), and `Regex.Outline` says what this means for the
automaton of an expression.
-/
import LanguageForms.Proofs.Automaton.Tidy
import LanguageForms.Proofs.Regex.Steps
import LanguageForms.Regex.Reduced

namespace LanguageForms
namespace Regex

/-! ### Counting nodes -/

/-- A symbol or `ε`. -/
def isLeaf : Regex → Bool
  | symbol _ => true
  | epsilon => true
  | union .. => false
  | concat .. => false
  | star _ => false

/-- A union or a star. -/
def isFramed (r : Regex) : Bool := r.isUnion || r.isStar

/-- The number of nodes whose expressions pass a test. -/
def nodeCount (r : Regex) (test : Regex → Bool) : Nat :=
  r.nodes.countP fun n => test n.expression

variable {test : Regex → Bool} {alphabet : SortedSet Char} {l r : Regex} {n i : Nat}

/-- A turn in front changes no expression. -/
theorem countP_under (test : Regex → Bool) (t : Turn) (ns : List Node) :
    (ns.map (Node.under t)).countP (fun n => test n.expression) =
      ns.countP fun n => test n.expression :=
  List.countP_map

/-- A symbol is its only node. -/
@[simp] theorem nodeCount_symbol (c : Char) :
    (symbol c).nodeCount test = if test (symbol c) then 1 else 0 :=
  List.countP_singleton

/-- The empty word is its only node. -/
@[simp] theorem nodeCount_epsilon : epsilon.nodeCount test = if test epsilon then 1 else 0 :=
  List.countP_singleton

/-- The nodes of a union are those of its sides and the root. -/
@[simp] theorem nodeCount_union : (union l r).nodeCount test =
    l.nodeCount test + r.nodeCount test + if test (union l r) then 1 else 0 := by
  simp only [nodeCount, nodes, List.countP_append, countP_under, List.countP_singleton]

/-- The nodes of a concatenation are those of its sides and the root. -/
@[simp] theorem nodeCount_concat : (concat l r).nodeCount test =
    l.nodeCount test + r.nodeCount test + if test (concat l r) then 1 else 0 := by
  simp only [nodeCount, nodes, List.countP_append, countP_under, List.countP_singleton]

/-- The nodes of a star are those of its body and the root. -/
@[simp] theorem nodeCount_star :
    (star r).nodeCount test = r.nodeCount test + if test (star r) then 1 else 0 := by
  simp only [nodeCount, nodes, List.countP_append, countP_under, List.countP_singleton]

/-- **Two states for every node** but a concatenation. -/
theorem two_mul_size (r : Regex) : r.stateCount + 2 * r.nodeCount isConcat = 2 * r.size := by
  induction r with
  | symbol c => simp [stateCount, size, isConcat]
  | epsilon => simp [stateCount, size, isConcat]
  | union l r ihl ihr =>
    simp [stateCount, size, isConcat]
    omega
  | concat l r ihl ihr =>
    simp [stateCount, size, isConcat]
    omega
  | star r ih =>
    simp [stateCount, size, isConcat]
    omega

/-! ### Fragments -/

/-- A number that comes later belongs to no state of the fragment. -/
theorem numbered_not_mem_build (h : n + r.stateCount ≤ i) :
    ¬ State.numbered i ∈ (build alphabet r n).1.states := by
  rw [numbered_mem_states_build]
  omega

/-- A number behind those of both parts is new. -/
theorem numbered_not_mem_parts (h : n + l.stateCount + r.stateCount ≤ i) :
    ¬ (State.numbered i ∈ (build alphabet l n).1.states ∨
      State.numbered i ∈ (build alphabet r (n + l.stateCount)).1.states) := by
  rw [numbered_mem_states_build, numbered_mem_states_build]
  omega

/-- **Every fragment is tidy.** -/
theorem tidy_build (alphabet : SortedSet Char) (r : Regex) (n : Nat) :
    (build alphabet r n).1.Tidy := by
  induction r generalizing n with
  | symbol c => exact Fragment.tidy_basic (numbered_ne (by omega)) _
  | epsilon => exact Fragment.tidy_basic (numbered_ne (by omega)) _
  | union l r ihl ihr =>
    exact (ihl n).inParallel (ihr _) (not_mem_states_build (Nat.le_refl _))
      (numbered_not_mem_parts (by omega)) (numbered_not_mem_parts (by omega))
      (numbered_ne (by omega))
  | concat l r ihl ihr =>
    exact (ihl n).inSequence (ihr _) (not_mem_states_build (Nat.le_refl _))
  | star r ih =>
    exact (ih n).repeated (numbered_not_mem_build (by omega)) (numbered_not_mem_build (by omega))
      (numbered_ne (by omega))

/-- **The number of transitions**: one for every leaf and every concatenation, four for every
union and every star. -/
theorem size_transitions_build (alphabet : SortedSet Char) (r : Regex) (n : Nat) :
    (build alphabet r n).1.transitions.size =
      r.nodeCount isLeaf + r.nodeCount isConcat + 4 * r.nodeCount isFramed := by
  induction r generalizing n with
  | symbol c =>
    simp [isLeaf, isConcat, isFramed, isUnion, isStar]
    rfl
  | epsilon =>
    simp [isLeaf, isConcat, isFramed, isUnion, isStar]
    rfl
  | union l r ihl ihr =>
    have hsize : (build alphabet (union l r) n).1.transitions.size =
        (build alphabet l n).1.transitions.size +
          (build alphabet r (n + l.stateCount)).1.transitions.size + 4 :=
      Fragment.size_transitions_inParallel (tidy_build _ l n) (tidy_build _ r _)
        (not_mem_states_build (Nat.le_refl _)) (numbered_not_mem_parts (by omega))
        (numbered_not_mem_parts (by omega)) (numbered_ne (by omega))
    rw [hsize, ihl, ihr]
    simp [isLeaf, isConcat, isFramed, isUnion, isStar]
    omega
  | concat l r ihl ihr =>
    have hsize : (build alphabet (concat l r) n).1.transitions.size =
        (build alphabet l n).1.transitions.size +
          (build alphabet r (n + l.stateCount)).1.transitions.size + 1 :=
      Fragment.size_transitions_inSequence (tidy_build _ l n) (tidy_build _ r _)
        (not_mem_states_build (Nat.le_refl _))
    rw [hsize, ihl, ihr]
    simp [isLeaf, isConcat, isFramed, isUnion, isStar]
    omega
  | star r ih =>
    have hsize : (build alphabet (star r) n).1.transitions.size =
        (build alphabet r n).1.transitions.size + 4 :=
      Fragment.size_transitions_repeated (tidy_build _ r n) (numbered_not_mem_build (by omega))
        (numbered_not_mem_build (by omega)) (numbered_ne (by omega))
    rw [hsize, ih]
    simp [isLeaf, isConcat, isFramed, isUnion, isStar]
    omega

/-! ### The automaton -/

/-- What the automaton of an expression looks like. -/
structure Outline (r : Regex) (a : Automaton) : Prop where
  /-- The states are numbered from zero on, two for every node but a concatenation. -/
  states : a.states.toList =
    (List.range (2 * (r.size - r.nodeCount isConcat))).map State.numbered
  /-- The kinds of the nodes say how many transitions there are. -/
  transitionCount : a.transitionCount =
    r.nodeCount isLeaf + r.nodeCount isConcat + 4 * r.nodeCount isFramed
  /-- The alphabet has the symbols of the expression. -/
  alphabet : ∀ c, c ∈ a.alphabet ↔ c ∈ r.symbols
  /-- No transition enters the start. -/
  start : ∀ t ∈ a.transitions, t.target ≠ a.start
  /-- No transition leaves the only accepting state, and every state lies on a path to it. -/
  accepting : ∃ f, a.accepting = .singleton f ∧ (∀ t ∈ a.transitions, t.source ≠ f) ∧
    ∀ q ∈ a.states, ∃ u v, a.Path a.start u q ∧ a.Path q v f
  /-- One transition that reads a symbol leaves a state, or at most two that read nothing. -/
  sparse : ∀ q ∈ a.states, IsSparse (a.outgoing q)

/-- **The automaton of an expression** has the states and the transitions that the nodes of the
expression ask for, one accepting state, and few transitions from every state. -/
theorem outline_toAutomaton (r : Regex) : r.Outline r.toAutomaton.1 := by
  have htidy := tidy_build r.alphabet r 0
  constructor
  case states =>
    have hcount : r.stateCount = 2 * (r.size - r.nodeCount isConcat) := by
      have htwice := two_mul_size r
      omega
    have hstates := toList_states_build r.alphabet r 0
    rw [numberedFrom, ← List.range_eq_range', hcount] at hstates
    exact hstates
  case transitionCount => exact size_transitions_build r.alphabet r 0
  case alphabet => exact fun c => mem_alphabet
  case start => exact htidy.enter
  case accepting =>
    refine ⟨_, rfl, htidy.leave, fun q hq => ?_⟩
    obtain ⟨u, v, hu, hv⟩ := htidy.visits q hq
    exact ⟨u, v, Fragment.path_toAutomaton_iff.2 hu, Fragment.path_toAutomaton_iff.2 hv⟩
  case sparse => exact htidy.sparse

/-- Of six nodes one is a concatenation. -/
example : (concat (star (union (symbol 'a') epsilon)) (symbol 'a')).toAutomaton.1.size = 10 := by
  decide

end Regex
end LanguageForms
