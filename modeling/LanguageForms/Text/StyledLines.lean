/-
# Lines that keep their style

A text is cut at its line feeds.  The pieces may be drawn side by side with other text,
so each of them sets up the style in which it begins and takes back the one in which it
ends.  A text of one line, and a line without characters, stay as they are.
-/
import LanguageForms.Text.Style

namespace LanguageForms
namespace Text

/-- The lines of a text, each set up and taken back, from a given style on. -/
def styledFrom (s : Style) : List (List Char) → List (List Char)
  | [] => []
  | line :: rest =>
    if line.isEmpty then line :: styledFrom s rest
    else (s.opening ++ line ++ (s.after line).closing) :: styledFrom (s.after line) rest

/-- The lines of a text. -/
def styledLines (text : List Char) : List (List Char) :=
  match splitWhere (· == '\n') text with
  | [line] => [line]
  | lines => styledFrom .plain lines

/-- Lines without the escape character stay as they are. -/
theorem styledFrom_plain {lines : List (List Char)} (h : ∀ line ∈ lines, escapeChar ∉ line) :
    styledFrom .plain lines = lines := by
  induction lines with
  | nil => rfl
  | cons line rest ih =>
    rw [styledFrom, Style.after_eq_self (h line List.mem_cons_self),
      ih fun l hl => h l (List.mem_cons_of_mem line hl), Style.opening_plain, Style.closing_plain,
      List.nil_append, List.append_nil, ite_self]

/-- A text without the escape character is cut and nothing else. -/
theorem styledLines_eq_splitWhere {text : List Char} (h : escapeChar ∉ text) :
    styledLines text = splitWhere (· == '\n') text := by
  have hl : ∀ line ∈ splitWhere (· == '\n') text, escapeChar ∉ line :=
    fun line hline hc => h (mem_of_mem_splitWhere hline hc)
  rw [styledLines]
  split
  · next heq => exact heq.symm
  · exact styledFrom_plain hl

end Text
end LanguageForms
