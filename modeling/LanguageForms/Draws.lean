/-
# Random draws

`Draws` is a source of random values with a state: a fraction below one, a coin,
and a number below a bound.  What is built from draws is built for every source.

`Draws.seeded` is one such source.  Its state is a word of 64 bits that grows by a
fixed odd number; a draw multiplies the state with itself, some of its bits
flipped, and folds the product of 128 bits to 64.
-/

namespace LanguageForms

/-- A source of random values. -/
structure Draws (σ : Type) where
  /-- A number from zero up to, but not including, one. -/
  fraction : σ → Float × σ
  /-- Heads or tails. -/
  coin : σ → Bool × σ
  /-- A number below a bound. -/
  below : Nat → σ → Nat × σ

namespace Draws

/-- A draw below a bound is below it. -/
def InBounds {σ : Type} (d : Draws σ) : Prop :=
  ∀ (bound : Nat) (s : σ), 0 < bound → (d.below bound s).1 < bound

/-- The number of words. -/
def wordSize : Nat := Nat.pow 2 64

/-- The next word and the next state. -/
def next (s : UInt64) : UInt64 × UInt64 :=
  let s := s + 0x2d358dccaa6c78a5
  let product := s.toNat * (s ^^^ 0x8bb84b93962eacc9).toNat
  (UInt64.ofNat product ^^^ UInt64.ofNat (product / wordSize), s)

/-- How often a draw is repeated that does not fit. -/
def repetitions : Nat := 100

/-- The upper 63 bits of a word as a fraction, again if it was rounded up to one. -/
def seededFraction : Nat → UInt64 → Float × UInt64
  | 0, s => (0, s)
  | n + 1, s =>
    let draw := next s
    let x := ((draw.1 >>> 1).toFloat).scaleB (-63)
    if x < 1 then (x, draw.2) else seededFraction n draw.2

/-- The upper word of a product with the bound.  A product with a low lower word is drawn
again, so that every number has the same chance. -/
def seededBelow (bound : Nat) : Nat → UInt64 → Nat × UInt64
  | 0, s => (0, s)
  | n + 1, s =>
    let draw := next s
    let product := draw.1.toNat * bound
    let low := product % wordSize
    if low < bound && low < (wordSize - bound) % bound then seededBelow bound n draw.2
    else (product / wordSize, draw.2)

/-- The source whose state is a word of 64 bits. -/
def seeded : Draws UInt64 where
  fraction := seededFraction repetitions
  coin s :=
    let draw := next s
    (draw.1 % 2 == 0, draw.2)
  below bound := seededBelow bound repetitions

/-- Scaling a word down to a bound stays below the bound. -/
theorem div_wordSize_lt {word : UInt64} {bound : Nat} (h : 0 < bound) :
    word.toNat * bound / wordSize < bound :=
  Nat.div_lt_of_lt_mul (Nat.mul_lt_mul_of_pos_right (UInt64.toNat_lt word) h)

/-- However many words are rejected, the draw stays below its bound. -/
theorem seededBelow_lt {bound n : Nat} {s : UInt64} (h : 0 < bound) :
    (seededBelow bound n s).1 < bound := by
  induction n generalizing s with
  | zero => exact h
  | succ n ih =>
    rw [seededBelow]
    generalize next s = draw
    split
    · exact ih
    · exact div_wordSize_lt h

/-- The seeded source keeps its bounds. -/
theorem seeded_inBounds : seeded.InBounds := fun _ _ h => seededBelow_lt h

variable {σ : Type}

/-- Keeps each value with its own chance. -/
def keepEach {α : Type} (d : Draws σ) : List (α × Float) → σ → List α × σ
  | [], s => ([], s)
  | (a, chance) :: rest, s =>
    let draw := d.fraction s
    let kept := keepEach d rest draw.2
    (if draw.1 < chance then a :: kept.1 else kept.1, kept.2)

/-- Keeps each value that a coin decides for. -/
def keepHalf {α : Type} (d : Draws σ) : List α → σ → List α × σ
  | [], s => ([], s)
  | a :: rest, s =>
    let draw := d.coin s
    let kept := keepHalf d rest draw.2
    (if draw.1 then a :: kept.1 else kept.1, kept.2)

/-- The first number, from a given one on, that a chance decides for. -/
def firstHit (d : Draws σ) (chance : Float) : Nat → Nat → σ → Option Nat × σ
  | _, 0, s => (none, s)
  | i, n + 1, s =>
    let draw := d.fraction s
    if draw.1 < chance then (some i, draw.2) else firstHit d chance (i + 1) n draw.2

end Draws

end LanguageForms
