/-
# Enumerating words one after the other

An enumeration holds the next word as the places of its symbols, and is asked for one
word at a time.  To get on, the last place moves to the next symbol; one that was at
the last symbol goes back to the first, and the place before it moves.  If all places
were at the last symbol, the next word is longer by one.  Without symbols the
enumeration ends after the empty word.
-/
import LanguageForms.Words

namespace LanguageForms
namespace Words

/-- Moves the last place to the next of `k` symbols, carrying to the places before it, unless all
places are at the last symbol. -/
def increment (k : Nat) : List Nat → Option (List Nat)
  | [] => none
  | d :: ds =>
    match increment k ds with
    | some ds' => some (d :: ds')
    | none => if d + 1 < k then some ((d + 1) :: List.replicate ds.length 0) else none

/-- The places of the symbols of the next word over `k` symbols. -/
def successor (k : Nat) (ds : List Nat) : List Nat :=
  match increment k ds with
  | some ds' => ds'
  | none => List.replicate (ds.length + 1) 0

/-- What is left of an enumeration: the symbols in order, and the places of the symbols of the
next word, if there is one. -/
structure Enumeration where
  symbols : SortedSet Char
  current : Option (List Nat)

namespace Enumeration

/-- The enumeration of all words over some symbols, given in any order and any number of times. -/
def ofSymbols (cs : List Char) : Enumeration := ⟨.ofList cs, some []⟩

/-- The next word, and what is left behind it. -/
def next? (e : Enumeration) : Option (List Char × Enumeration) := do
  let ds ← e.current
  let word ← ds.mapM fun d => e.symbols.toList[d]?
  if e.symbols.isEmpty then return (word, { e with current := none })
  else return (word, { e with current := some (successor e.symbols.size ds) })

/-- The word in a given place behind those that have been asked for. -/
def nth (e : Enumeration) : Nat → Option (List Char)
  | 0 => e.next?.map Prod.fst
  | n + 1 => e.next?.bind fun r => nth r.2 n

/-- The words in front of the first one that fails a test, asked for one after the other. -/
inductive TakesWhile (test : List Char → Bool) : Enumeration → List (List Char) → Prop where
  | done {e : Enumeration} : e.next? = none → TakesWhile test e []
  | stop {e e' : Enumeration} {w : List Char} :
      e.next? = some (w, e') → test w = false → TakesWhile test e []
  | take {e e' : Enumeration} {w : List Char} {ws : List (List Char)} :
      e.next? = some (w, e') → test w = true → TakesWhile test e' ws → TakesWhile test e (w :: ws)

end Enumeration
end Words
end LanguageForms
