/-
# A fresh name is new

`freshState` strikes a name off the list of those that are taken once it has been
tried.  That is no loss: every name that is tried later begins with it and is
longer (`exists_name_freshState`), so it is another one.
-/
import LanguageForms.Automaton.Basic

namespace LanguageForms
namespace Automaton

/-- As many primes as are asked for. -/
def primes : Nat → String
  | 0 => ""
  | n + 1 => "'" ++ primes n

/-- A fresh name is the name that was asked for with some primes. -/
theorem exists_name_freshState (taken : List State) (base : String) :
    ∃ n, (freshState taken base).name = base ++ primes n := by
  fun_induction freshState taken base with
  | case1 taken base _ _ ih =>
    obtain ⟨n, hn⟩ := ih
    exact ⟨n + 1, by rw [hn, primes, String.append_assoc]⟩
  | case2 taken base _ => exact ⟨0, String.append_empty.symm⟩

/-- A name that is not taken is kept as it is. -/
theorem freshState_of_not_mem {taken : List State} {base : String} (h : ¬ ⟨base⟩ ∈ taken) :
    freshState taken base = ⟨base⟩ := by
  rw [freshState, dif_neg h]

/-- **A fresh name is not taken.** -/
theorem freshState_not_mem (taken : List State) (base : String) :
    ¬ freshState taken base ∈ taken := by
  fun_induction freshState taken base with
  | case1 taken base _ _ ih =>
    intro hmem
    have hne : freshState (taken.erase ⟨base⟩) (base ++ "'") ≠ ⟨base⟩ := by
      intro heq
      obtain ⟨n, hn⟩ := exists_name_freshState (taken.erase ⟨base⟩) (base ++ "'")
      rw [heq] at hn
      have hlength : base.length = (base ++ "'" ++ primes n).length := congrArg String.length hn
      rw [String.length_append, String.length_append] at hlength
      have hone : "'".length = 1 := rfl
      omega
    exact ih ((List.mem_erase_of_ne hne).2 hmem)
  | case2 taken base h => exact h

end Automaton
end LanguageForms
