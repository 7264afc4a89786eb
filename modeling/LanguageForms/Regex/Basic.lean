/-
# Regular expressions

The syntax tree of a regular expression.  There is no expression for the empty
language: a tree always describes at least one word.

`Regex.compare` orders trees by the kind of the root (symbol, empty word, union,
concatenation, star), then by the parts from left to right.
-/
import LanguageForms.SortedSet

namespace LanguageForms

/-- A regular expression over characters. -/
inductive Regex where
  /-- Exactly the word of one symbol. -/
  | symbol (c : Char)
  /-- Exactly the empty word. -/
  | epsilon
  /-- The words of either side. -/
  | union (left right : Regex)
  /-- A word of the left side followed by a word of the right side. -/
  | concat (left right : Regex)
  /-- Any number of words of the inner expression, one after the other. -/
  | star (inner : Regex)
deriving DecidableEq

namespace Regex

/-- The number of nodes of the tree. -/
def size : Regex → Nat
  | symbol _ => 1
  | epsilon => 1
  | union l r => 1 + l.size + r.size
  | concat l r => 1 + l.size + r.size
  | star r => 1 + r.size

/-- The symbols that occur in the tree, from left to right. -/
def symbols : Regex → List Char
  | symbol c => [c]
  | epsilon => []
  | union l r => l.symbols ++ r.symbols
  | concat l r => l.symbols ++ r.symbols
  | star r => r.symbols

/-- The set of symbols that occur in the tree. -/
def alphabet (r : Regex) : SortedSet Char := .ofList r.symbols

/-- The alphabet has the symbols that occur. -/
theorem mem_alphabet {r : Regex} {c : Char} : c ∈ r.alphabet ↔ c ∈ r.symbols :=
  SortedSet.mem_ofList

/-- What the node at the root is called. -/
def operator : Regex → String
  | symbol _ => "symbol"
  | epsilon => "epsilon"
  | union .. => "union"
  | concat .. => "concatenation"
  | star _ => "Kleene star"

/-- The place of the root's kind in the order of trees. -/
def rank : Regex → Nat
  | symbol _ => 0
  | epsilon => 1
  | union .. => 2
  | concat .. => 3
  | star _ => 4

/-- How two trees compare: by the kinds of their roots, then by their parts. -/
def compare : Regex → Regex → Ordering
  | symbol a, symbol b => instOrdNat.compare a.toNat b.toNat
  | epsilon, epsilon => .eq
  | union k l, union m n => (k.compare m).then (l.compare n)
  | concat k l, concat m n => (k.compare m).then (l.compare n)
  | star k, star l => k.compare l
  | k, l => instOrdNat.compare k.rank l.rank

end Regex

end LanguageForms
