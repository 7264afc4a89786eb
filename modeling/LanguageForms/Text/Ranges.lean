/-
# Ranges of characters

A property of characters is a list of closed ranges of code points, in ascending order.
-/

namespace LanguageForms
namespace Text

/-- Whether a number lies in one of some closed ranges. -/
def inRanges (ranges : List (Nat × Nat)) (n : Nat) : Bool :=
  ranges.any fun r => r.1 ≤ n && n ≤ r.2

end Text
end LanguageForms
