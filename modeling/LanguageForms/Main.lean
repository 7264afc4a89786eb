/-
# The program

Prints the answer to the arguments and ends with its status.
-/
import LanguageForms.CommandLine.Answer

open LanguageForms

/-- Answers the arguments of the command line. -/
def main (args : List String) : IO UInt32 := do
  let a := CommandLine.answer args
  IO.print a.output
  if let some e := a.error then
    IO.eprintln e
  return UInt32.ofNat a.status
