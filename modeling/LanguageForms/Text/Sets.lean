/-
# Sets as text

The text of a set lists its members in their order, each by its own text.
-/
import LanguageForms.SortedSet
import LanguageForms.Text.Collection

namespace LanguageForms

/-- The text of a set whose members are written in a given way. -/
def SortedSet.text {α : Type} [Sortable α] (item : α → String) (s : SortedSet α) : String :=
  Text.braced (s.toList.map item)

/-- The text of a set of sets of symbols. -/
def SortedSet.nestedText (s : SortedSet (SortedSet Char)) : String :=
  s.text (SortedSet.text Text.symbol)

/-- The text of a set of pairs of a text and a number. -/
def SortedSet.pairsText (s : SortedSet (String × Nat)) : String :=
  s.text fun p => Text.paired p.1 p.2.repr

end LanguageForms
