/-
# The nodes of an expression

Every node of the syntax tree has an address: the turns that lead to it from the
root.  A node lies below another if its address continues the other's address.
The nodes are listed in post-order, parts before the whole.
-/
import LanguageForms.Regex.Basic

namespace LanguageForms
namespace Regex

/-- A turn on the way down; the inner expression of a star lies to the left. -/
inductive Turn where
  | left
  | right
deriving DecidableEq

/-- A node: the way to it, and its expression. -/
structure Node where
  address : List Turn
  expression : Regex
deriving DecidableEq

/-- The node as it is seen from one level further up. -/
def Node.under (t : Turn) (n : Node) : Node := ⟨t :: n.address, n.expression⟩

/-- The node lies below another one, or is that node. -/
def Node.IsWithin (m n : Node) : Prop := n.address.IsPrefix m.address

instance (m n : Node) : Decidable (m.IsWithin n) :=
  inferInstanceAs (Decidable (n.address.IsPrefix m.address))

/-- The nodes in post-order. -/
def nodes : Regex → List Node
  | symbol c => [⟨[], symbol c⟩]
  | epsilon => [⟨[], epsilon⟩]
  | union l r =>
    l.nodes.map (.under .left) ++ r.nodes.map (.under .right) ++ [⟨[], union l r⟩]
  | concat l r =>
    l.nodes.map (.under .left) ++ r.nodes.map (.under .right) ++ [⟨[], concat l r⟩]
  | star r => r.nodes.map (.under .left) ++ [⟨[], star r⟩]

/-- There are as many nodes as the size says. -/
theorem length_nodes (r : Regex) : r.nodes.length = r.size := by
  induction r with
  | symbol c => rfl
  | epsilon => rfl
  | union l r ihl ihr =>
    simp only [nodes, size, List.length_append, List.length_map, List.length_singleton, ihl, ihr]
    omega
  | concat l r ihl ihr =>
    simp only [nodes, size, List.length_append, List.length_map, List.length_singleton, ihl, ihr]
    omega
  | star r ih =>
    simp only [nodes, size, List.length_append, List.length_map, List.length_singleton, ih]
    omega

end Regex
end LanguageForms
