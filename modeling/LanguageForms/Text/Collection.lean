/-
# How collections are written

A set is written in braces with its items separated by commas, a set without
items as `∅`.  A sequence of symbols is written without separators.
-/

namespace LanguageForms
namespace Text

/-- The texts with a separator between neighbours. -/
def separated (sep : String) : List String → String
  | [] => ""
  | [s] => s
  | s :: t :: l => s ++ sep ++ separated sep (t :: l)

/-- The texts one after the other. -/
def joined : List String → String
  | [] => ""
  | s :: l => s ++ joined l

/-- A set written by its items. -/
def braced (items : List String) : String :=
  if items.isEmpty then "∅" else "\x7b" ++ separated ", " items ++ "\x7d"

/-- A pair written by its two components. -/
def paired (first second : String) : String := "(" ++ first ++ ", " ++ second ++ ")"

/-- A symbol as a text. -/
def symbol (c : Char) : String := String.singleton c

/-- The text of an optional symbol, `ε` for none. -/
def symbolOrEmpty : Option Char → String
  | some c => symbol c
  | none => "ε"

/-- A sequence of symbols, `ε` if there are none. -/
def symbolsOrEmpty (cs : List Char) : String :=
  if cs.isEmpty then "ε" else String.ofList cs

end Text
end LanguageForms
