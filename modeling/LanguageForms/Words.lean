/-
# All words over an alphabet

The words over some symbols are listed by length, and words of one length in
lexicographic order.  The word in place `n` is `n` written with the symbols as
the digits `1` to `k`: the last digit is `(n - 1) % k + 1`, and the digits before
it write `(n - 1) / k`.  Without symbols there is only the empty word.
-/
import LanguageForms.SortedSet

namespace LanguageForms
namespace Words

/-- The order in which words are listed: the shorter first, and of two words of one length the
first in lexicographic order. -/
def Precedes (u v : List Char) : Prop :=
  u.length < v.length ∨ (u.length = v.length ∧ before u v = true)

/-- Some word of the first language comes before all words of the second one. -/
def Earlier (P Q : List Char → Prop) : Prop := ∃ u, P u ∧ ∀ v, Q v → Precedes u v

/-- The word in a given place in front of some characters, if there are that many words. -/
def wordOnto (symbols : List Char) (rest : List Char) : Nat → Option (List Char)
  | 0 => some rest
  | n + 1 =>
    match symbols[n % symbols.length]? with
    | none => none
    | some c => wordOnto symbols (c :: rest) (n / symbols.length)
termination_by n => n
decreasing_by exact Nat.lt_succ_of_le (Nat.div_le_self n symbols.length)

/-- The word in a given place, if there are that many words. -/
def wordAt (symbols : List Char) (n : Nat) : Option (List Char) := wordOnto symbols [] n

/-- The word in front of some characters is the word in its place. -/
theorem wordOnto_eq_map (symbols rest : List Char) (n : Nat) :
    wordOnto symbols rest n = (wordAt symbols n).map (· ++ rest) := by
  induction n using Nat.strongRecOn generalizing rest with
  | ind n ih =>
    cases n with
    | zero => simp [wordAt, wordOnto]
    | succ n =>
      have hn : n / symbols.length < n + 1 := Nat.lt_succ_of_le (Nat.div_le_self ..)
      rw [wordAt, wordOnto, wordOnto]
      split
      · rfl
      · next c _ => simp [ih _ hn [c], ih _ hn (c :: rest), Function.comp_def]

/-- The empty word is in the first place. -/
theorem wordAt_zero (symbols : List Char) : wordAt symbols 0 = some [] := by
  rw [wordAt, wordOnto]

/-- The last symbol of a word is a remainder, and the symbols before it are a word as well. -/
theorem wordAt_succ (symbols : List Char) (n : Nat) :
    wordAt symbols (n + 1) = symbols[n % symbols.length]?.bind fun c =>
      (wordAt symbols (n / symbols.length)).map (· ++ [c]) := by
  rw [wordAt, wordOnto]
  cases symbols[n % symbols.length]? with
  | none => rfl
  | some c => exact wordOnto_eq_map symbols [c] _

/-- How many of the first places hold a word over `k` symbols: all of them, but without symbols
only the first one. -/
def placesWithin (k count : Nat) : Nat := if k = 0 then Nat.min 1 count else count

/-- The first words, fewer if there are not as many. -/
def first (symbols : SortedSet Char) (count : Nat) : List (List Char) :=
  (List.range (placesWithin symbols.size count)).filterMap (wordAt symbols.toList)

/-- The number of words of at most a given length over `k` symbols. -/
def countUpTo : Nat → Nat → Nat
  | 0, _ => 1
  | _ + 1, 0 => 1
  | k + 1, n + 1 => countUpTo (k + 1) n + Nat.pow (k + 1) (n + 1)

/-- The words of at most a given length. -/
def upTo (symbols : SortedSet Char) (length : Nat) : List (List Char) :=
  first symbols (countUpTo symbols.size length)

end Words
end LanguageForms
