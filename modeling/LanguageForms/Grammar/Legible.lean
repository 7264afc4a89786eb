/-
# Grammars and their text

The text of a grammar does not say of which sort a symbol is.  It can be seen if the
nonterminals are uppercase letters and the terminals are plain (`Grammar.IsLegible`):
a plain symbol is read as the terminal it is.

The text names the rules head by head, so the productions are regrouped when it is
read, and what occurs in no production is lost.  `Grammar.IsRegrouped g k` says that
apart from this `k` is `g`.
-/
import LanguageForms.Grammar.Text

namespace LanguageForms
namespace Grammar

/-- Whether a character stands for itself in a body: it separates nothing and is not left out. -/
def isVisible (c : Char) : Bool :=
  !Text.isBlank c && !(c == 'ε') && !(c == '|') && !(c == ';')

/-- Whether a character stands for itself and is taken for a terminal. -/
def isPlain (c : Char) : Bool := !isUppercase c && isVisible c

/-- A visible character is no blank and none of the signs that a rule is cut at. -/
theorem isVisible_eq_true_iff {c : Char} :
    isVisible c = true ↔ Text.isBlank c = false ∧ c ≠ 'ε' ∧ c ≠ '|' ∧ c ≠ ';' := by
  simp [isVisible, and_assoc]

/-- A plain character is visible and no capital letter. -/
theorem isPlain_eq_true_iff {c : Char} :
    isPlain c = true ↔ isUppercase c = false ∧ isVisible c = true := by
  rw [isPlain, Bool.and_eq_true, Bool.not_eq_true']

/-- A capital letter is none of the characters that are no capital letters. -/
theorem ne_of_isUppercase {c d : Char} (hc : isUppercase c = true) (hd : isUppercase d = false) :
    c ≠ d := by
  rintro rfl
  rw [hc] at hd
  cases hd

/-- A capital letter is no blank. -/
theorem isBlank_of_isUppercase {c : Char} (h : isUppercase c = true) : Text.isBlank c = false := by
  have hrange : 65 ≤ c.toNat ∧ c.toNat ≤ 90 := by simpa [isUppercase] using h
  simp only [Text.isBlank, Bool.or_eq_false_iff, Bool.and_eq_false_iff, decide_eq_false_iff_not,
    beq_eq_false_iff_ne]
  omega

/-- Uppercase letters stand for themselves. -/
theorem isVisible_of_isUppercase {c : Char} (h : isUppercase c = true) : isVisible c = true :=
  isVisible_eq_true_iff.2 ⟨isBlank_of_isUppercase h, ne_of_isUppercase h rfl,
    ne_of_isUppercase h rfl, ne_of_isUppercase h rfl⟩

/-- The sort of every symbol can be seen. -/
structure IsLegible (g : Grammar) : Prop where
  nonterminals : ∀ c ∈ g.nonterminals, isUppercase c = true
  terminals : ∀ c ∈ g.terminals, isPlain c = true

instance (g : Grammar) : Decidable g.IsLegible :=
  decidable_of_iff
    (g.nonterminals.toList.all isUppercase = true ∧ g.terminals.toList.all isPlain = true)
    ⟨fun h => ⟨List.all_eq_true.1 h.1, List.all_eq_true.1 h.2⟩,
      fun h => ⟨List.all_eq_true.2 h.nonterminals, List.all_eq_true.2 h.terminals⟩⟩

/-- In some body `-` is directly followed by `>`. -/
def HasArrow (g : Grammar) : Prop := ∃ p ∈ g.productions, plainArrow <:+: p.body

instance (g : Grammar) : Decidable g.HasArrow :=
  inferInstanceAs (Decidable (∃ p ∈ g.productions, plainArrow <:+: p.body))

/-- The symbol occurs in some production. -/
def Occurs (g : Grammar) (c : Char) : Prop := ∃ p ∈ g.productions, c = p.head ∨ c ∈ p.body

/-- The place of the first production with a given head. -/
def firstPlace (g : Grammar) (head : Char) : Nat := (g.productions.map (·.head)).idxOf head

/-- The grammar `k` has the productions of `g` head by head, begins with the head of the first one,
and has only the symbols that occur. -/
structure IsRegrouped (g k : Grammar) : Prop where
  /-- Every production is there as often as it was. -/
  perm : k.productions.Perm g.productions
  /-- The heads come in the order of their first productions. -/
  heads : k.productions.Pairwise fun p q => g.firstPlace p.head ≤ g.firstPlace q.head
  /-- The alternatives of a head stay in their order. -/
  alternatives : ∀ head, k.productionsOf head = g.productionsOf head
  start : g.productions.head?.map (·.head) = some k.start
  nonterminals : ∀ c, c ∈ k.nonterminals ↔ c ∈ g.nonterminals ∧ g.Occurs c
  terminals : ∀ c, c ∈ k.terminals ↔ c ∈ g.terminals ∧ g.Occurs c
  text : k.text = g.text

end Grammar
end LanguageForms
