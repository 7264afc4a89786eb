/-
# Deciding whether a pushdown automaton accepts

There may be infinitely many configurations, so runs are summed up over the
positions of the word:

* *pops* relates a situation to the points where the automaton can be when the
  top cell is gone, without having looked below it;
* *reaches* relates a situation to the points where the automaton can be without
  having looked below the top cell.

Both are least relations that are closed under the rules, found by sweeping over
all firings of rules until a sweep adds nothing.  A move that takes nothing from
the stack is a rule for every cell, which takes the cell and puts it back; the
bottom is a cell that is never taken for good.  Points are targets of firings, so
the square of the number of firings bounds the number of sweeps.
-/
import LanguageForms.Pushdown.Basic
import LanguageForms.Pushdown.Relation

namespace LanguageForms
namespace Pushdown

/-- A move that takes exactly one cell. -/
structure Rule where
  source : State
  label : Label
  pop : Cell
  push : List Cell
  target : State
deriving DecidableEq

/-- The cells that can be on top: the declared and the mentioned symbols, and the bottom. -/
def cells (p : Pushdown) : List Cell :=
  (p.stackAlphabet.toList ++ p.moves.flatMap fun m => m.pop.toList ++ m.push).eraseDups.map
    .symbol ++ [.bottom]

/-- The rules of one move. -/
def Move.rules (m : Move) (cells : List Cell) : List Rule :=
  match m.pop with
  | some c => [⟨m.source, m.label, .symbol c, m.push.map .symbol, m.target⟩]
  | none => cells.map fun z => ⟨m.source, m.label, z, m.push.map .symbol ++ [z], m.target⟩

/-- The rules of the moves between declared states. -/
def rules (p : Pushdown) : List Rule :=
  (p.moves.filter fun m => decide (m.source ∈ p.states) && decide (m.target ∈ p.states)).flatMap
    fun m => m.rules p.cells

/-- A rule used at a position: the situation it needs, the point it leads to, and the cells
that it puts on the stack. -/
structure Firing where
  situation : Situation
  next : Point
  push : List Cell
deriving DecidableEq

/-- The position after a label that is read at a position, if it can be read there. -/
def nextPosition? (word : List Char) (i : Nat) : Label → Option Nat
  | .epsilon => some i
  | .symbol c => if word[i]? = some c then some (i + 1) else none

/-- The firing of a rule at a position. -/
def Rule.firing? (word : List Char) (i : Nat) (r : Rule) : Option Firing :=
  (nextPosition? word i r.label).map fun j => ⟨⟨r.source, r.pop, i⟩, ⟨r.target, j⟩, r.push⟩

/-- All firings of some rules on a word, the last positions first. -/
def firings (rules : List Rule) (word : List Char) : List Firing :=
  (List.range (word.length + 1)).reverse.flatMap fun i => rules.filterMap (Rule.firing? word i)

/-- Where the automaton can be after one cell is gone. -/
def popCell (pops : Relation) (points : List Point) (z : Cell) : List Point :=
  (points.flatMap fun p => pops.image (p.under z)).eraseDups

/-- Where the automaton can be after several cells are gone. -/
def popCells (pops : Relation) (points : List Point) : List Cell → List Point
  | [] => points
  | z :: zs => popCells pops (popCell pops points z) zs

/-- What is reached from a point with a given cell on top, the point itself included. -/
def reached (reaches : Relation) (z : Cell) (p : Point) : List Point :=
  p :: reaches.image (p.under z)

/-- Where the automaton can be while it takes several cells, and after that. -/
def passCells (pops reaches : Relation) (points : List Point) : List Cell → List Point
  | [] => points
  | z :: zs => points.flatMap (reached reaches z) ++ passCells pops reaches (popCell pops points z) zs

/-- Uses every firing once. -/
def sweep (derive : Relation → Firing → List Point) (fs : List Firing) (r : Relation) : Relation :=
  fs.foldl (fun r f => r.addAll f.situation (derive r f)) r

/-- Sweeps until nothing is added. -/
def saturate (derive : Relation → Firing → List Point) (fs : List Firing) :
    Nat → Relation → Relation
  | 0, r => r
  | n + 1, r =>
    let next := sweep derive fs r
    if next.count = r.count then r else saturate derive fs n next

/-- How many sweeps are enough. -/
def sweepBound (fs : List Firing) : Nat := fs.length * fs.length + 1

/-- Where a firing can lead once the cells that it puts on the stack are gone. -/
def popsAfter (pops : Relation) (f : Firing) : List Point := popCells pops [f.next] f.push

/-- Where a firing can lead while the cells that it puts on the stack are taken, and after that. -/
def reachesAfter (pops reaches : Relation) (f : Firing) : List Point :=
  passCells pops reaches [f.next] f.push

/-- The pops of some firings. -/
def popsOf (fs : List Firing) : Relation := saturate popsAfter fs (sweepBound fs) .empty

/-- The reaches of some firings, given their pops. -/
def reachesOf (fs : List Firing) (pops : Relation) : Relation :=
  saturate (reachesAfter pops) fs (sweepBound fs) .empty

/-- Whether the automaton accepts a word. -/
def accepts (p : Pushdown) (word : List Char) : Bool :=
  let fs := firings p.rules word
  let reaches := reachesOf fs (popsOf fs)
  (reached reaches .bottom ⟨p.start, 0⟩).any fun q =>
    decide (q.position = word.length) && decide (q.state ∈ p.accepting)

end Pushdown
end LanguageForms
