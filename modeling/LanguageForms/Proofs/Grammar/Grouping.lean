/-
# Productions head by head

The members of a list can be collected by a key, key by key.  If every key is listed
and none is listed twice, then what belongs to one key keeps its order
(`filter_flatMap_filter`), and every member is collected as often as it was there
(`perm_flatMap_filter`).

So a grammar whose productions are regrouped by their heads still has the same heads
in the same order (`Grammar.pairwise_grouped`) and the same alternatives for each of
them, which is all that its text tells (`Grammar.text_eq_of_grouped`).
-/
import LanguageForms.Grammar.Legible
import Mathlib.Data.List.Basic
import Mathlib.Data.List.Induction

namespace LanguageForms

/-! ### Lists by their keys -/

section Keys

variable {α β : Type} [DecidableEq β] {key : α → β} {l : List α} {ks : List β} {k : β}

/-- Of the members with one key, all or none have another key. -/
theorem filter_filter_key (k' : β) :
    (l.filter fun a => decide (key a = k')).filter (fun a => decide (key a = k)) =
      if k' = k then l.filter fun a => decide (key a = k) else [] := by
  rw [List.filter_filter]
  split
  · next heq =>
    refine List.filter_congr fun a _ => ?_
    simp [heq]
  · next hne =>
    rw [List.filter_eq_nil_iff]
    intro a _ h
    simp only [Bool.and_eq_true, decide_eq_true_eq] at h
    exact hne (h.2.symm.trans h.1)

/-- **What belongs to one key keeps its order.** -/
theorem filter_flatMap_filter (hks : ks.Nodup) (h : ∀ a ∈ l, key a ∈ ks) :
    (ks.flatMap fun k => l.filter fun a => decide (key a = k)).filter
      (fun a => decide (key a = k)) = l.filter fun a => decide (key a = k) := by
  have hlisted : (ks.flatMap fun k => l.filter fun a => decide (key a = k)).filter
      (fun a => decide (key a = k)) =
        if k ∈ ks then l.filter fun a => decide (key a = k) else [] := by
    clear h
    induction ks with
    | nil => rfl
    | cons k' ks ih =>
      obtain ⟨hk', hks⟩ := List.nodup_cons.1 hks
      rw [List.flatMap_cons, List.filter_append, filter_filter_key, ih hks]
      by_cases heq : k' = k
      · subst heq
        simp [hk']
      · simp [heq, Ne.symm heq]
  rw [hlisted]
  split
  · rfl
  · next hk =>
    symm
    rw [List.filter_eq_nil_iff]
    intro a ha hkey
    exact hk (of_decide_eq_true hkey ▸ h a ha)

/-- **Every member is collected as often as it was there.** -/
theorem perm_flatMap_filter [DecidableEq α] (hks : ks.Nodup) (h : ∀ a ∈ l, key a ∈ ks) :
    (ks.flatMap fun k => l.filter fun a => decide (key a = k)).Perm l := by
  rw [List.perm_iff_count]
  intro a
  have hcount : ∀ m : List α, (m.filter fun b => decide (key b = key a)).count a = m.count a :=
    fun m => List.count_filter (decide_eq_true rfl)
  rw [← hcount, filter_flatMap_filter hks h, hcount]

end Keys

namespace DistinctList

variable {α β : Type} [DecidableEq β] {key : α → β} {blocks : β → List α} {ks : List β}

/-- **The members stand in the order of their first occurrences.** -/
theorem pairwise_idxOf_toList_ofList (l : List β) :
    (ofList l).toList.Pairwise fun a b => l.idxOf a < l.idxOf b := by
  induction l using List.reverseRecOn with
  | nil => exact .nil
  | append_singleton l c ih =>
    have hinsert : ofList (l ++ [c]) = (ofList l).insert c := insertAll_append empty l [c]
    have hkept : ∀ a ∈ (ofList l).toList, (l ++ [c]).idxOf a = l.idxOf a := fun a ha =>
      List.idxOf_append_of_mem (mem_ofList.1 ha)
    have hold : (ofList l).toList.Pairwise fun a b => (l ++ [c]).idxOf a < (l ++ [c]).idxOf b := by
      refine ih.imp_of_mem fun ha hb hlt => ?_
      rwa [hkept _ ha, hkept _ hb]
    rw [hinsert]
    by_cases hc : c ∈ ofList l
    · rw [insert_of_mem hc]
      exact hold
    · rw [toList_insert hc, List.pairwise_append]
      refine ⟨hold, List.pairwise_singleton _ _, fun a ha b hb => ?_⟩
      have hnew : c ∉ l := fun hmem => hc (mem_ofList.2 hmem)
      have hlt : l.idxOf a < l.length := List.idxOf_lt_length_of_mem (mem_ofList.1 ha)
      rw [List.mem_singleton.1 hb, hkept a ha, List.idxOf_append_of_notMem hnew]
      omega

/-- **The keys of blocks come in as if each of them came once.** -/
theorem insertAll_flatMap (s : DistinctList β) (hne : ∀ k ∈ ks, blocks k ≠ [])
    (hkey : ∀ k ∈ ks, ∀ a ∈ blocks k, key a = k) :
    s.insertAll ((ks.flatMap blocks).map key) = s.insertAll ks := by
  induction ks generalizing s with
  | nil => rfl
  | cons k ks ih =>
    rw [List.forall_mem_cons] at hne hkey
    have hblock : s.insertAll ((blocks k).map key) = s.insert k := by
      obtain ⟨a, block, heq⟩ := List.exists_cons_of_ne_nil hne.1
      have hk := hkey.1
      rw [heq, List.forall_mem_cons] at hk
      rw [heq, List.map_cons, hk.1]
      refine insertAll_of_forall_mem (s := s.insert k) fun b hb => ?_
      obtain ⟨a', ha', rfl⟩ := List.mem_map.1 hb
      exact mem_insert.2 (.inr (hk.2 a' ha'))
    rw [List.flatMap_cons, List.map_append, insertAll_append, hblock, ih _ hne.2 hkey.2]
    rfl

end DistinctList

/-! ### Regrouped grammars -/

namespace Grammar

variable {g k : Grammar} {head : Char} {p : Production}

/-- The heads are those of the productions. -/
theorem mem_heads : head ∈ g.heads ↔ ∃ p ∈ g.productions, p.head = head := by
  rw [heads, ← DistinctList.mem_iff, DistinctList.mem_ofList, List.mem_map]

/-- No head is listed twice. -/
theorem nodup_heads (g : Grammar) : g.heads.Nodup := (DistinctList.ofList _).nodup

/-- The head of a production is listed. -/
theorem head_mem_heads (hp : p ∈ g.productions) : p.head ∈ g.heads := mem_heads.2 ⟨p, hp, rfl⟩

/-- The productions of a head are those that have it. -/
theorem mem_productionsOf : p ∈ g.productionsOf head ↔ p ∈ g.productions ∧ p.head = head := by
  rw [productionsOf, List.mem_filter, decide_eq_true_eq]

/-- A head has a production. -/
theorem productionsOf_ne_nil (h : head ∈ g.heads) : g.productionsOf head ≠ [] := by
  obtain ⟨p, hp, hhead⟩ := mem_heads.1 h
  exact List.ne_nil_of_mem (mem_productionsOf.2 ⟨hp, hhead⟩)

/-- The productions head by head. -/
def grouped (g : Grammar) : List Production := g.heads.flatMap g.productionsOf

/-- **Grouping** loses no production and adds none. -/
theorem grouped_perm (g : Grammar) : g.grouped.Perm g.productions :=
  perm_flatMap_filter g.nodup_heads fun _ hp => head_mem_heads hp

/-- The heads come in the order of their first productions. -/
theorem pairwise_grouped (g : Grammar) :
    g.grouped.Pairwise fun p q => g.firstPlace p.head ≤ g.firstPlace q.head := by
  have hhead : ∀ {head p}, p ∈ g.productionsOf head → p.head = head := fun hp =>
    (mem_productionsOf.1 hp).2
  rw [grouped, List.pairwise_flatMap]
  constructor
  · intro head _
    refine List.pairwise_of_forall_mem_list fun p hp q hq => ?_
    have hsame : p.head = q.head := (hhead hp).trans (hhead hq).symm
    exact Nat.le_of_eq (congrArg _ hsame)
  · refine (DistinctList.pairwise_idxOf_toList_ofList _).imp fun hlt p hp q hq => ?_
    rw [hhead hp, hhead hq]
    exact Nat.le_of_lt hlt

/-- The alternatives of a head are the same. -/
theorem productionsOf_eq_of_grouped (h : k.productions = g.grouped) (head : Char) :
    k.productionsOf head = g.productionsOf head := by
  rw [productionsOf, h]
  exact filter_flatMap_filter g.nodup_heads fun _ hp => head_mem_heads hp

/-- The heads are the same, in the same order. -/
theorem heads_eq_of_grouped (h : k.productions = g.grouped) : k.heads = g.heads := by
  have hkeys : DistinctList.ofList (g.grouped.map (·.head)) = DistinctList.ofList g.heads :=
    DistinctList.insertAll_flatMap .empty (fun _ hA => productionsOf_ne_nil hA)
      fun _ _ p hp => (mem_productionsOf.1 hp).2
  rw [heads, h, hkeys, DistinctList.toList_ofList g.nodup_heads]

/-- **A text does not tell how the productions of different heads were mixed.** -/
theorem text_eq_of_grouped (h : k.productions = g.grouped) : k.text = g.text := by
  have hrule : k.ruleText = g.ruleText := funext fun head => by
    rw [ruleText, productionsOf_eq_of_grouped h, ruleText]
  rw [text, heads_eq_of_grouped h, hrule, text]

/-- The first production stays the first one. -/
theorem head?_grouped (g : Grammar) : g.grouped.head? = g.productions.head? := by
  cases hps : g.productions with
  | nil =>
    have hperm := g.grouped_perm
    rw [hps] at hperm
    rw [hperm.eq_nil]
  | cons p ps =>
    have hheads : [p.head] <+: g.heads := by
      rw [heads, hps]
      exact DistinctList.toList_prefix_insertAll (DistinctList.empty.insert p.head) _
    obtain ⟨heads, hheads⟩ := hheads
    have hfirst : g.productionsOf p.head = p :: ps.filter fun q => decide (q.head = p.head) := by
      simp [productionsOf, hps]
    rw [grouped, ← hheads, List.singleton_append, List.flatMap_cons, hfirst]
    rfl

end Grammar
end LanguageForms
