/-
# Relations that grow

A `Relation` holds pairs of a situation and a point, found by their situation,
together with their number.  `mem_image_add` says what adding a pair does; the
number grows exactly if the pair is new (`count_add`), so an unchanged number
means that nothing was added.
-/
import Std.Data.HashMap
import LanguageForms.Automaton.Basic

namespace LanguageForms
namespace Pushdown

/-- A symbol on the stack, or the bottom below all symbols. -/
inductive Cell where
  | symbol (c : Char)
  | bottom
deriving DecidableEq

/-- Cells are told apart by their code points, and the bottom by none. -/
instance : Hashable Cell where
  hash
    | .symbol c => UInt64.ofNat (c.toNat + 1)
    | .bottom => 0

/-- A state before a position of the word. -/
structure Point where
  state : State
  position : Nat
deriving DecidableEq, Hashable

/-- A state before a position of the word, with a cell on top of the stack. -/
structure Situation where
  state : State
  top : Cell
  position : Nat
deriving DecidableEq, Hashable

/-- The situation at a point with a given cell on top. -/
def Point.under (p : Point) (top : Cell) : Situation := ⟨p.state, top, p.position⟩

/-- Pairs of a situation and a point, and their number. -/
structure Relation where
  table : Std.HashMap Situation (List Point)
  count : Nat

namespace Relation

/-- No pairs. -/
def empty : Relation := ⟨∅, 0⟩

/-- The points that belong to a situation. -/
def image (r : Relation) (s : Situation) : List Point := r.table.getD s []

/-- Adds a pair unless it is there. -/
def add (r : Relation) (s : Situation) (p : Point) : Relation :=
  if p ∈ r.image s then r else ⟨r.table.insert s (p :: r.image s), r.count + 1⟩

/-- Adds the pairs of a situation with several points. -/
def addAll (r : Relation) (s : Situation) (ps : List Point) : Relation :=
  ps.foldl (fun r p => r.add s p) r

/-- The empty relation leads nowhere. -/
theorem image_empty (s : Situation) : empty.image s = [] := Std.HashMap.getD_empty

/-- Adding a pair adds it to the image of its situation. -/
theorem mem_image_add {r : Relation} {s t : Situation} {p q : Point} :
    q ∈ (r.add s p).image t ↔ q ∈ r.image t ∨ (s = t ∧ q = p) := by
  unfold add
  split
  · next h =>
    refine ⟨.inl, ?_⟩
    rintro (hq | ⟨rfl, rfl⟩)
    · exact hq
    · exact h
  · unfold image
    rw [Std.HashMap.getD_insert]
    by_cases hst : s = t
    · subst hst
      rw [if_pos (beq_self_eq_true s), List.mem_cons, or_comm]
      simp only [true_and]
    · rw [if_neg (fun h => hst (eq_of_beq h))]
      simp only [hst, false_and, or_false]

/-- Only a pair that is new is counted. -/
theorem count_add {r : Relation} {s : Situation} {p : Point} :
    (r.add s p).count = if p ∈ r.image s then r.count else r.count + 1 := by
  unfold add
  split <;> rfl

/-- Adding several points to a situation adds them to its image. -/
theorem mem_image_addAll {r : Relation} {s t : Situation} {ps : List Point} {q : Point} :
    q ∈ (r.addAll s ps).image t ↔ q ∈ r.image t ∨ (s = t ∧ q ∈ ps) := by
  induction ps generalizing r with
  | nil => simp only [addAll, List.foldl_nil, List.not_mem_nil, and_false, or_false]
  | cons p ps ih =>
    refine ih.trans ?_
    rw [mem_image_add, List.mem_cons, and_or_left, or_assoc]

end Relation
end Pushdown
end LanguageForms
