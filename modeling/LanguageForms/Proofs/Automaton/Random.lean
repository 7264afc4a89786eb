/-
# The parts of a random automaton fit together

Whatever is drawn, a random nondeterministic automaton has transitions between its
own states only (`wellFormed_drawNondeterministic`).

A deterministic one has a transition for every state that was treated and every
symbol, in this order: the sources and symbols of what has grown are the pairs of
treated states and symbols (`keys_treat`, `keys_grow`).  No pair comes twice, so the
automaton is deterministic (`deterministic_drawDeterministic`).  A target that is
drawn counts as a state from then on, so no transition leads out of the states that
there are (`Growth.Fits`).
-/
import LanguageForms.Automaton.Defect
import LanguageForms.Automaton.Random
import Mathlib.Data.List.ProdSigma
import Mathlib.Data.List.Nodup

namespace LanguageForms

variable {σ : Type}

/-! ### Draws that keep values of a list -/

/-- What is kept at its own chance keeps its order. -/
theorem Draws.keepEach_sublist {α : Type} (d : Draws σ) (l : List (α × Float)) (s : σ) :
    (d.keepEach l s).1.Sublist (l.map Prod.fst) := by
  induction l generalizing s with
  | nil => exact .slnil
  | cons x l ih =>
    rw [keepEach, List.map_cons]
    split
    · exact .cons_cons _ (ih _)
    · exact .cons _ (ih _)

/-- What is kept at even chances keeps its order. -/
theorem Draws.keepHalf_sublist {α : Type} (d : Draws σ) (l : List α) (s : σ) :
    (d.keepHalf l s).1.Sublist l := by
  induction l generalizing s with
  | nil => exact .slnil
  | cons x l ih =>
    rw [keepHalf]
    split
    · exact .cons_cons _ (ih _)
    · exact .cons _ (ih _)

namespace Automaton

variable {d : Draws σ} {s : σ} {n source target i : Nat} {c : Char} {chance : Float}
  {maxStates : Nat} {cs symbols : List Char} {p q : State} {t : Transition}

/-- The first states are those with the small numbers. -/
theorem numbered_mem_firstStates (h : i < n) : State.numbered i ∈ firstStates n :=
  List.mem_map_of_mem (List.mem_range.2 h)

/-- No letter comes twice. -/
theorem nodup_letters_take (n : Nat) : (letters.take n).Nodup :=
  (by decide : letters.Nodup).sublist (List.take_sublist n letters)

/-! ### Nondeterministic automata -/

/-- What can be drawn from one state to another leads from the one to the other and reads one of
the symbols or nothing. -/
theorem mem_candidates {density epsilonDensity : Float} {x : Transition × Float}
    (hx : x ∈ candidates symbols density epsilonDensity p q) :
    x.1.source = p ∧ x.1.target = q ∧ ∀ c, x.1.label = .symbol c → c ∈ symbols := by
  rcases List.mem_append.1 hx with hx | hx
  · obtain ⟨c, hc, rfl⟩ := List.mem_map.1 hx
    refine ⟨rfl, rfl, fun c' heq => ?_⟩
    rwa [← Label.symbol.inj heq]
  · split at hx
    · exact absurd hx List.not_mem_nil
    · rw [List.mem_singleton.1 hx]
      exact ⟨rfl, rfl, fun c heq => Label.noConfusion heq⟩

/-- A transition that is drawn connects two of the states and reads one of the symbols or
nothing. -/
theorem mem_transitions_drawNondeterministic {states symbols : Nat} {density epsilonDensity : Float}
    (ht : t ∈ (drawNondeterministic d states symbols density epsilonDensity s).1.transitions) :
    t.source ∈ firstStates (Nat.max states 1) ∧ t.target ∈ firstStates (Nat.max states 1) ∧
      ∀ c, t.label = .symbol c → c ∈ letters.take symbols := by
  have hkept := (Draws.keepEach_sublist d _ _).subset (SortedSet.mem_ofList.1 ht)
  obtain ⟨x, hx, rfl⟩ := List.mem_map.1 hkept
  obtain ⟨p, hp, hx⟩ := List.mem_flatMap.1 hx
  obtain ⟨q, hq, hx⟩ := List.mem_flatMap.1 hx
  obtain ⟨hsource, htarget, hsymbol⟩ := mem_candidates hx
  exact ⟨hsource ▸ hp, htarget ▸ hq, hsymbol⟩

/-- **The parts of a random nondeterministic automaton fit together.** -/
theorem wellFormed_drawNondeterministic (d : Draws σ) (states symbols : Nat)
    (density epsilonDensity : Float) (s : σ) :
    (drawNondeterministic d states symbols density epsilonDensity s).1.WellFormed := by
  constructor
  case start =>
    have hpos : 0 < Nat.max states 1 := Nat.lt_of_lt_of_le Nat.zero_lt_one (Nat.le_max_right ..)
    exact DistinctList.mem_ofList.2 (numbered_mem_firstStates hpos)
  case accepting =>
    intro q hq
    have hkept := (Draws.keepHalf_sublist d _ _).subset (SortedSet.mem_ofList.1 hq)
    exact DistinctList.mem_ofList.2 hkept
  case source =>
    exact fun t ht => DistinctList.mem_ofList.2 (mem_transitions_drawNondeterministic ht).1
  case target =>
    exact fun t ht => DistinctList.mem_ofList.2 (mem_transitions_drawNondeterministic ht).2.1
  case symbol =>
    exact fun t ht c hc =>
      SortedSet.mem_ofList.2 ((mem_transitions_drawNondeterministic ht).2.2 c hc)

/-! ### What grows to a deterministic automaton -/

namespace Growth

variable {g : Growth}

/-- The edges lead from states that there are to states that there are. -/
def Fits (g : Growth) : Prop := ∀ e ∈ g.edges, e.1 < g.count ∧ e.2.2 < g.count

/-- The states and symbols whose targets have been drawn. -/
def keys (g : Growth) : List (Nat × Char) := g.edges.map fun e => (e.1, e.2.1)

/-- An added edge comes last with its source and symbol. -/
theorem keys_addEdge : (g.addEdge source c target).keys = g.keys ++ [(source, c)] :=
  List.map_append

/-- No state is lost when an edge is added. -/
theorem count_le_addEdge : g.count ≤ (g.addEdge source c target).count := Nat.le_max_left ..

/-- An edge from a state that there is makes its target one, too. -/
theorem Fits.addEdge (h : g.Fits) (hsource : source < g.count) :
    (g.addEdge source c target).Fits := by
  intro e he
  rcases List.mem_append.1 he with he | he
  · have hold := h e he
    exact ⟨Nat.lt_of_lt_of_le hold.1 count_le_addEdge, Nat.lt_of_lt_of_le hold.2 count_le_addEdge⟩
  · rw [List.mem_singleton.1 he]
    exact ⟨Nat.lt_of_lt_of_le hsource count_le_addEdge, Nat.le_max_right ..⟩

/-- A state that is treated gets one edge for every symbol. -/
theorem keys_treat (g : Growth) (s : σ) :
    (treat d chance maxStates source cs g s).1.keys = g.keys ++ cs.map (Prod.mk source) := by
  induction cs generalizing g s with
  | nil => exact (List.append_nil _).symm
  | cons c cs ih => rw [treat, ih, keys_addEdge, List.append_assoc, List.map_cons]; rfl

/-- No state is lost when a state is treated. -/
theorem count_le_treat (g : Growth) (s : σ) :
    g.count ≤ (treat d chance maxStates source cs g s).1.count := by
  induction cs generalizing g s with
  | nil => exact Nat.le_refl _
  | cons c cs ih => exact Nat.le_trans count_le_addEdge (ih _ _)

/-- Treating a state draws edges between states that there are. -/
theorem Fits.treat (h : g.Fits) (hsource : source < g.count) (s : σ) :
    (treat d chance maxStates source cs g s).1.Fits := by
  induction cs generalizing g s with
  | nil => exact h
  | cons c cs ih =>
    exact ih (h.addEdge hsource) (Nat.lt_of_lt_of_le hsource count_le_addEdge) _

/-- **Every state is treated once, with every symbol once.** -/
theorem keys_grow (n source : Nat) (g : Growth) (s : σ) :
    ∃ m, (grow d chance maxStates symbols n source g s).1.keys =
      g.keys ++ List.range' source m ×ˢ symbols := by
  induction n generalizing source g s with
  | zero => exact ⟨0, (List.append_nil _).symm⟩
  | succ n ih =>
    rw [grow]
    split
    · obtain ⟨m, hm⟩ := ih (source + 1) _ _
      refine ⟨m + 1, ?_⟩
      rw [hm, keys_treat, List.range'_succ, List.product_cons, List.append_assoc]
    · exact ⟨0, (List.append_nil _).symm⟩

/-- No state is lost while the automaton grows. -/
theorem count_le_grow (n source : Nat) (g : Growth) (s : σ) :
    g.count ≤ (grow d chance maxStates symbols n source g s).1.count := by
  induction n generalizing source g s with
  | zero => exact Nat.le_refl _
  | succ n ih =>
    rw [grow]
    split
    · exact Nat.le_trans (count_le_treat g s) (ih _ _ _)
    · exact Nat.le_refl _

/-- The edges lead between states that there are, as long as the automaton grows. -/
theorem Fits.grow (h : g.Fits) (n source : Nat) (s : σ) :
    (grow d chance maxStates symbols n source g s).1.Fits := by
  induction n generalizing source g s with
  | zero => exact h
  | succ n ih =>
    rw [Growth.grow]
    split
    · next hsource => exact ih (h.treat hsource s) _ _
    · exact h

end Growth

/-! ### Deterministic automata -/

open Growth

/-- What has grown when a random deterministic automaton is drawn. -/
def grown (d : Draws σ) (symbols : Nat) (chance : Float) (maxStates : Nat) (s : σ) : Growth :=
  (grow d chance (Nat.max maxStates 1) (letters.take symbols) (Nat.max maxStates 1) 0 ⟨1, []⟩ s).1

/-- The edges of what has grown lead between states that there are. -/
theorem fits_grown (d : Draws σ) (symbols : Nat) (chance : Float) (maxStates : Nat) (s : σ) :
    (grown d symbols chance maxStates s).Fits :=
  Fits.grow (fun _ he => absurd he List.not_mem_nil) _ _ _

/-- What has grown from a state without edges has an edge for every treated state and every
symbol. -/
theorem exists_keys_grown (d : Draws σ) (symbols : Nat) (chance : Float) (maxStates : Nat) (s : σ) :
    ∃ m, (grown d symbols chance maxStates s).keys = List.range' 0 m ×ˢ letters.take symbols :=
  keys_grow _ 0 ⟨1, []⟩ s

/-- A transition that is drawn belongs to an edge that has grown. -/
theorem mem_transitions_drawDeterministic {symbols : Nat} :
    t ∈ (drawDeterministic d symbols chance maxStates s).1.transitions ↔
      ∃ e ∈ (grown d symbols chance maxStates s).edges,
        t = ⟨.numbered e.1, .symbol e.2.1, .numbered e.2.2⟩ := by
  refine SortedSet.mem_ofList.trans (List.mem_map.trans ?_)
  exact exists_congr fun e => and_congr_right fun _ => eq_comm

/-- **The parts of a random deterministic automaton fit together.** -/
theorem wellFormed_drawDeterministic (d : Draws σ) (symbols : Nat) (chance : Float)
    (maxStates : Nat) (s : σ) :
    (drawDeterministic d symbols chance maxStates s).1.WellFormed := by
  have hstate : ∀ i < (grown d symbols chance maxStates s).count,
      State.numbered i ∈ (drawDeterministic d symbols chance maxStates s).1.states :=
    fun i hi => DistinctList.mem_ofList.2 (numbered_mem_firstStates hi)
  have hfits := fits_grown d symbols chance maxStates s
  constructor
  case start => exact hstate 0 (count_le_grow _ 0 ⟨1, []⟩ s)
  case accepting =>
    intro q hq
    have hkept := (Draws.keepHalf_sublist d _ _).subset (SortedSet.mem_ofList.1 hq)
    exact DistinctList.mem_ofList.2 hkept
  case source =>
    intro t ht
    obtain ⟨e, he, rfl⟩ := mem_transitions_drawDeterministic.1 ht
    exact hstate e.1 (hfits e he).1
  case target =>
    intro t ht
    obtain ⟨e, he, rfl⟩ := mem_transitions_drawDeterministic.1 ht
    exact hstate e.2.2 (hfits e he).2
  case symbol =>
    intro t ht c hc
    obtain ⟨e, he, rfl⟩ := mem_transitions_drawDeterministic.1 ht
    obtain ⟨m, hkeys⟩ := exists_keys_grown d symbols chance maxStates s
    have hkey : (e.1, e.2.1) ∈ (grown d symbols chance maxStates s).keys := List.mem_map_of_mem he
    rw [hkeys] at hkey
    rw [← Label.symbol.inj hc]
    exact SortedSet.mem_ofList.2 (List.mem_product.1 hkey).2

/-- **A random deterministic automaton is deterministic**, since the target of a state and a symbol
is drawn once. -/
theorem deterministic_drawDeterministic (d : Draws σ) (symbols : Nat) (chance : Float)
    (maxStates : Nat) (s : σ) :
    (drawDeterministic d symbols chance maxStates s).1.Deterministic where
  noEpsilon t ht := by
    obtain ⟨e, -, rfl⟩ := mem_transitions_drawDeterministic.1 ht
    exact Label.noConfusion
  unique t ht u hu hsource hlabel := by
    obtain ⟨e, he, rfl⟩ := mem_transitions_drawDeterministic.1 ht
    obtain ⟨f, hf, rfl⟩ := mem_transitions_drawDeterministic.1 hu
    obtain ⟨m, hkeys⟩ := exists_keys_grown d symbols chance maxStates s
    have hnodup : (grown d symbols chance maxStates s).keys.Nodup := by
      rw [hkeys]
      exact List.Nodup.product List.nodup_range' (nodup_letters_take symbols)
    have hkey : (e.1, e.2.1) = (f.1, f.2.1) :=
      Prod.ext (State.numbered_injective hsource) (Label.symbol.inj hlabel)
    rw [List.inj_on_of_nodup_map hnodup he hf hkey]

end Automaton
end LanguageForms
