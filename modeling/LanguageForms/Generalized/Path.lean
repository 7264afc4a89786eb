/-
# Paths through an automaton with expressions

`Generalized.Path g p w q` says that edges lead from `p` to `q` whose languages,
one word of each taken in turn, spell `w`.
-/
import LanguageForms.Generalized.Basic
import LanguageForms.Regex.Language

namespace LanguageForms
namespace Generalized

/-- Edges of the automaton lead from one state to another and spell a word. -/
inductive Path (g : Generalized) : State → List Char → State → Prop where
  | nil (q : State) : Path g q [] q
  | cons {p q r : State} {e : Regex} {u v : List Char} :
      g.edge? p q = some e → e.Matches u → Path g q v r → Path g p (u ++ v) r

/-- At least one edge leads from one state to another, and the edges spell the word. -/
inductive Way (g : Generalized) : State → List Char → State → Prop where
  | cons {p q r : State} {e : Regex} {u v : List Char} :
      g.edge? p q = some e → e.Matches u → Path g q v r → Way g p (u ++ v) r

/-- A path from the start to the accepting state spells the word. -/
def Recognizes (g : Generalized) (word : List Char) : Prop := Path g g.start word g.accept

namespace Path

variable {g : Generalized}

/-- An edge is a path that spells every word of its expression. -/
theorem single {p q : State} {e : Regex} {u : List Char} (he : g.edge? p q = some e)
    (hu : e.Matches u) : Path g p u q :=
  List.append_nil u ▸ cons he hu (nil q)

/-- Two paths make a path that spells both words. -/
theorem append {p q r : State} {u v : List Char} (hu : Path g p u q) (hv : Path g q v r) :
    Path g p (u ++ v) r := by
  induction hu with
  | nil => exact hv
  | cons he hw _ ih =>
    rw [List.append_assoc]
    exact cons he hw (ih hv)

end Path
end Generalized
end LanguageForms
