/-
# How many columns a text takes

A text is measured from its end: every character is told what stands behind it.  What
a terminal does not show takes no column, and nothing melts together across it.
-/
import LanguageForms.Text.Control
import LanguageForms.Text.Width.Follower

namespace LanguageForms
namespace Text

/-- The columns of a text that is shown whole, and what it is for a character in front of it. -/
def measure : List Char → Int × Behind
  | [] => (0, .nothing)
  | c :: cs =>
    let (n, b) := measure cs
    let (k, b') := step c b
    (k + n, b')

/-- The columns that a text takes. -/
def width (cs : List Char) : Nat :=
  (shownPieces cs).foldr (fun piece n => (measure piece).1.toNat + n) 0

/-- A line of characters up to `U+00A0` takes one column for each of them. -/
theorem measure_of_le {cs : List Char} (h : ∀ c ∈ cs, c.toNat ≤ 0xA0 ∧ c ≠ '\n') :
    measure cs = ((cs.length : Int), Behind.nothing) := by
  induction cs with
  | nil => rfl
  | cons c cs ih =>
    have hc := h c List.mem_cons_self
    rw [measure, ih fun d hd => h d (List.mem_cons_of_mem c hd)]
    simp [step_of_le hc.1 hc.2, Int.add_comm]

/-- Such a line without control sequences is as wide as it is long. -/
theorem width_eq_length {cs : List Char} (h : ∀ c ∈ cs, c.toNat ≤ 0xA0 ∧ c ≠ '\n')
    (shown : escapeChar ∉ cs) : width cs = cs.length := by
  simp [width, shownPieces_eq_singleton shown, measure_of_le h]

/-- A man, a woman and a girl with joiners between them are one picture. -/
example :
    width [Char.ofNat 0x1F468, joiner, Char.ofNat 0x1F469, joiner, Char.ofNat 0x1F467] = 2 := rfl

end Text
end LanguageForms
