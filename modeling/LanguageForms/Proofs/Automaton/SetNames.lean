/-
# The names of the found sets

Whatever holds of the first subset, and is kept when a set that is not known yet gets
its name, holds of all that is found (`found_induction`).  So every state is named by
the text of its set, with primes perhaps (`name_of_mem_found`).

There are no primes if no two sets that the automaton can be in have the same text
(`state_of_mem_found`): then a name is never taken before its set is known.
-/
import LanguageForms.Proofs.Automaton.Breadth

namespace LanguageForms
namespace Automaton
namespace Subset

variable {a : Automaton} {known queue : List Subset} {source s : Subset} {es : List Event}
  {cs : List Char} {P : List Subset → Prop}

/-- The property is kept when a set that the automaton can be in, and that is not known yet, gets
its name. -/
def IsKept (a : Automaton) (P : List Subset → Prop) : Prop :=
  ∀ known members, Table a known → a.IsReachable members →
    ¬ members ∈ known.map Subset.members → P known → P (known ++ [named known members])

/-- What naming one more set keeps is kept while a subset is treated. -/
theorem IsKept.eventsFrom (hP : IsKept a P) (h : Table a known)
    (hsource : a.IsReachable source.members) (hcs : ∀ c ∈ cs, c ∈ a.alphabet) (hknown : P known) :
    P (known ++ (Subset.eventsFrom a source cs known).2) := by
  fun_induction Subset.eventsFrom a source cs known with
  | case1 known => rwa [List.append_nil]
  | case2 c cs known direct target hempty ih =>
    exact ih h (fun d hd => hcs d (List.mem_cons_of_mem _ hd)) hknown
  | case3 c cs known direct target hempty s hfind rest ih =>
    exact ih h (fun d hd => hcs d (List.mem_cons_of_mem _ hd)) hknown
  | case4 c cs known direct target hempty hfind s rest ih =>
    have hne : a.advance source.members c ≠ .empty := fun heq =>
      hempty (SortedSet.isEmpty_iff.2 heq)
    have hreach := hsource.advance (hcs c (List.mem_cons_self ..)) hne
    have hnew : ¬ target ∈ known.map Subset.members := not_mem_of_find?_eq_none hfind
    have hrest := ih (h.concat_named hreach hnew) (fun d hd => hcs d (List.mem_cons_of_mem _ hd))
      (hP known target h hreach hnew hknown)
    rwa [List.append_assoc] at hrest

/-- What naming one more set keeps is kept until the queue is empty. -/
theorem IsKept.exhausts (hP : IsKept a P) (h : Exhausts a known queue es) (htable : Table a known)
    (hqueue : ∀ s ∈ queue, s ∈ known) (hknown : P known) : P (known ++ created es) := by
  induction h with
  | nil known =>
    rwa [show created [] = [] from rfl, List.append_nil]
  | @cons known queue s es _ ih =>
    have hs := htable.reachable s (hqueue s (List.mem_cons_self ..))
    have hfound : Table a (known ++ (Subset.eventsFrom a s a.alphabet.toList known).2) :=
      table_eventsFrom htable hs fun _ hc => hc
    rw [created_append, created_eventsFrom, ← List.append_assoc]
    exact ih hfound (queue_subset hqueue) (hP.eventsFrom htable hs (fun _ hc => hc) hknown)

/-- **What is kept** when a set gets its name holds of all that is found, if it holds of the first
subset. -/
theorem found_induction (ha : a.WellFormed) (hfirst : P [first a]) (hP : IsKept a P) :
    P (found a) := by
  rw [found_eq]
  exact hP.exhausts (exhausts_events ha) (table_first a) (fun _ hs => hs) hfirst

/-- The state of a set has the text of the set for a name, with some primes. -/
theorem name_of_mem_found (ha : a.WellFormed) : ∀ s ∈ found a,
    ∃ n, s.state.name = statesText s.members.toList ++ primes n := by
  have hnamed : ∀ known members, ∃ n,
      (named known members).state.name = statesText members.toList ++ primes n :=
    fun known members =>
      exists_name_freshState (known.map Subset.state) (statesText members.toList)
  refine found_induction (P := fun known => ∀ s ∈ known,
    ∃ n, s.state.name = statesText s.members.toList ++ primes n) ha ?_ ?_
  · exact List.forall_mem_singleton.2 (hnamed [] a.initial)
  · intro known members _ _ _ hknown
    exact List.forall_mem_append.2 ⟨hknown, List.forall_mem_singleton.2 (hnamed known members)⟩

/-- **No primes are needed** if different sets that the automaton can be in have different
texts. -/
theorem state_of_mem_found (ha : a.WellFormed)
    (htext : ∀ s t, a.IsReachable s → a.IsReachable t →
      statesText s.toList = statesText t.toList → s = t) :
    ∀ s ∈ found a, s.state = ⟨statesText s.members.toList⟩ := by
  refine found_induction (P := fun known => ∀ s ∈ known,
    s.state = ⟨statesText s.members.toList⟩) ha ?_ ?_
  · exact List.forall_mem_singleton.2 (freshState_of_not_mem List.not_mem_nil)
  · intro known members htable hreach hnew hknown
    refine List.forall_mem_append.2 ⟨hknown, List.forall_mem_singleton.2 ?_⟩
    refine freshState_of_not_mem fun htaken => hnew ?_
    -- a known set with this name has the same text, so it is the same set
    obtain ⟨t, ht, hstate⟩ := List.mem_map.1 htaken
    rw [hknown t ht] at hstate
    have heq := htext _ _ (htable.reachable t ht) hreach (State.mk.inj hstate)
    exact heq ▸ List.mem_map_of_mem ht

end Subset
end Automaton
end LanguageForms
