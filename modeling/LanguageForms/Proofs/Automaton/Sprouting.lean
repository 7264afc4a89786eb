/-
# Random deterministic automata are complete and can be reached

The states of a random deterministic automaton sprout from its start.  A target that
is drawn is a state that there is or the next one, and the next one only while there
may be more (`target_lt_or_next`).  So there are never too many states, and every
state but the first is the target of an earlier one (`Sprouted`); an edge keeps this
(`Sprouted.addEdge`), and so does everything that grows by edges.

The states are treated in order while they sprout, and this comes to an end, since
there cannot be more states than rounds (`ends_grow`).  Then no state is left, and the
states and symbols whose targets were drawn are all pairs (`Ends.keys_eq`).  Hence
every state leads to one state by every letter, and a way back through the earlier
states leads to the start (`isFullyGrown_drawDeterministic`).
-/
import LanguageForms.Automaton.Path
import LanguageForms.Proofs.Automaton.Random

namespace LanguageForms

variable {σ : Type} {d : Draws σ} {s s' : σ} {chance : Float} {n source target maxStates i j : Nat}
  {c : Char} {cs symbols : List Char}

/-- A number that a chance decides for is one of those that were tried. -/
theorem Draws.firstHit_lt (h : (d.firstHit chance i n s).1 = some j) : j < i + n := by
  induction n generalizing i s with
  | zero =>
    rw [firstHit] at h
    exact absurd h (Option.some_ne_none j).symm
  | succ n ih =>
    simp only [firstHit] at h
    split at h
    · rw [← Option.some.inj h]
      exact Nat.lt_add_of_pos_right (Nat.zero_lt_succ n)
    · have hlt := ih h
      omega

namespace Automaton

/-- The first letters of the alphabet, as a list by their numbers. -/
theorem letters_take (n : Nat) :
    letters.take n = (List.range (min n 26)).map fun i => Char.ofNat ('a'.toNat + i) := by
  rw [letters, ← List.map_take, List.take_range]

/-- The letters are in alphabetical order. -/
theorem sorted_letters_take (n : Nat) :
    (letters.take n).Pairwise fun a b => before a b = true :=
  (by decide : letters.Pairwise fun a b => before a b = true).sublist (List.take_sublist n letters)

namespace Growth

variable {g g' : Growth}

/-! ### One edge after the other -/

/-- **What can be drawn as a target:** a state that there is, or the next one while there may be
more. -/
theorem target_lt_or_next (hd : d.InBounds) (hsource : source < g.count) (s : σ) :
    (g.target d chance maxStates source s).1 < g.count ∨
      (g.target d chance maxStates source s).1 = g.count ∧ g.count < maxStates := by
  simp only [Growth.target]
  split
  · next hhit =>
    have htried := Draws.firstHit_lt hhit
    exact .inl (by omega)
  · split
    · next hmore => exact .inr ⟨rfl, hmore⟩
    · exact .inl (hd _ _ (Nat.zero_lt_of_lt hsource))

/-- There is a state, there are not too many, and every state but the first is the target of an
earlier one. -/
structure Sprouted (maxStates : Nat) (g : Growth) : Prop where
  pos : 0 < g.count
  atMost : g.count ≤ maxStates
  earlier : ∀ i < g.count, 0 < i → ∃ e ∈ g.edges, e.1 < i ∧ e.2.2 = i

/-- One state alone has sprouted. -/
theorem sprouted_one (h : 0 < maxStates) : Sprouted maxStates ⟨1, []⟩ where
  pos := Nat.zero_lt_one
  atMost := h
  earlier _ hi hpos := absurd hi (Nat.not_lt_of_le hpos)

/-- An edge to a state that there is, or to the next one, keeps what has sprouted. -/
theorem Sprouted.addEdge (h : g.Sprouted maxStates) (hsource : source < g.count)
    (htarget : target < g.count ∨ target = g.count ∧ g.count < maxStates) :
    (g.addEdge source c target).Sprouted maxStates where
  pos := Nat.lt_of_lt_of_le h.pos count_le_addEdge
  atMost := by
    have hatMost := h.atMost
    exact Nat.max_le.2 ⟨hatMost, by omega⟩
  earlier i hi hpos := by
    by_cases hold : i < g.count
    · obtain ⟨e, he, hearlier⟩ := h.earlier i hold hpos
      exact ⟨e, List.mem_append_left _ he, hearlier⟩
    · -- A state that there was not before is the target of the new edge.
      have hcount : i < max g.count (target + 1) := hi
      have hnew : target = i := by omega
      exact ⟨(source, c, target), List.mem_append_right _ (List.mem_singleton_self _),
        by omega, hnew⟩

/-- Treating a state keeps what has sprouted. -/
theorem Sprouted.treat (hd : d.InBounds) (h : g.Sprouted maxStates) (hsource : source < g.count)
    (s : σ) : (treat d chance maxStates source cs g s).1.Sprouted maxStates := by
  induction cs generalizing g s with
  | nil => exact h
  | cons c cs ih =>
    refine ih (h.addEdge hsource ?_) (Nat.lt_of_lt_of_le hsource count_le_addEdge) _
    exact target_lt_or_next hd hsource s

/-! ### All states in order -/

/-- The states are treated in order, from a given one on, and those that sprout meanwhile after
them, until none is left; this has grown then. -/
inductive Ends (d : Draws σ) (chance : Float) (maxStates : Nat) (symbols : List Char) :
    Nat → Growth → σ → Growth → σ → Prop where
  | done {source : Nat} {g : Growth} {s : σ} (h : g.count ≤ source) :
      Ends d chance maxStates symbols source g s g s
  | treat {source : Nat} {g g' : Growth} {s s' : σ} (h : source < g.count) :
      Ends d chance maxStates symbols (source + 1) (treat d chance maxStates source symbols g s).1
        (treat d chance maxStates source symbols g s).2 g' s' →
      Ends d chance maxStates symbols source g s g' s'

/-- **The growth comes to an end** in as many rounds as there may be states. -/
theorem ends_grow (hd : d.InBounds) (h : g.Sprouted maxStates) (hrounds : maxStates ≤ source + n)
    (s : σ) :
    Ends d chance maxStates symbols source g s
      (grow d chance maxStates symbols n source g s).1
      (grow d chance maxStates symbols n source g s).2 := by
  induction n generalizing source g s with
  | zero => exact .done (Nat.le_trans h.atMost hrounds)
  | succ n ih =>
    rw [grow]
    split
    · next hsource => exact .treat hsource (ih (h.treat hd hsource s) (by omega) _)
    · next hnone => exact .done (Nat.le_of_not_lt hnone)

/-- Growth to its end keeps what has sprouted. -/
theorem Ends.sprouted (hends : Ends d chance maxStates symbols source g s g' s')
    (hd : d.InBounds) (h : g.Sprouted maxStates) : g'.Sprouted maxStates := by
  induction hends with
  | done => exact h
  | treat hsource _ ih => exact ih (h.treat hd hsource _)

/-- No state is lost until no state is left to be treated. -/
theorem Ends.count_le (hends : Ends d chance maxStates symbols source g s g' s') :
    g.count ≤ g'.count := by
  induction hends with
  | done => exact Nat.le_refl _
  | treat _ _ ih => exact Nat.le_trans (count_le_treat _ _) ih

/-- **In the end every state was treated**, also those that sprouted meanwhile. -/
theorem Ends.keys_eq (hends : Ends d chance maxStates symbols source g s g' s')
    (hsource : source ≤ g.count) :
    g'.keys = g.keys ++ List.range' source (g'.count - source) ×ˢ symbols := by
  induction hends with
  | done hnone =>
    rw [Nat.sub_eq_zero_of_le hnone, List.range'_zero, List.nil_product, List.append_nil]
  | @treat source g g' _ _ hlt hends ih =>
    have hle : g.count ≤ g'.count := Nat.le_trans (count_le_treat _ _) hends.count_le
    have hrest : g'.count - source = (g'.count - (source + 1)) + 1 := by omega
    rw [ih (Nat.le_trans hlt (count_le_treat _ _)), keys_treat, hrest, List.range'_succ,
      List.product_cons, List.append_assoc]

end Growth

/-! ### Deterministic automata -/

open Growth

/-- An automaton over the first letters whose states are numbered, not too many of them, that
leads from every state by every letter to one state, and in which every state can be reached. -/
structure IsFullyGrown (a : Automaton) (symbols maxStates : Nat) : Prop where
  alphabet : a.alphabet.toList =
    (List.range (min symbols 26)).map fun i => Char.ofNat ('a'.toNat + i)
  states : ∃ n, 1 ≤ n ∧ n ≤ max 1 maxStates ∧
    a.states.toList = (List.range n).map State.numbered
  start : a.start = .numbered 0
  complete : ∀ p ∈ a.states, ∀ c ∈ a.alphabet,
    ∃ q ∈ a.states, ∀ q', ⟨p, .symbol c, q'⟩ ∈ a.transitions ↔ q' = q
  noEpsilon : ∀ t ∈ a.transitions, t.label ≠ .epsilon
  reachable : ∀ q ∈ a.states, ∃ w, Path a a.start w q

section

variable {symbols : Nat}

/-- The states are listed by their numbers. -/
theorem toList_states_drawDeterministic :
    (drawDeterministic d symbols chance maxStates s).1.states.toList =
      firstStates (grown d symbols chance maxStates s).count :=
  DistinctList.toList_ofList (List.nodup_range.map fun _ _ => State.numbered_injective)

/-- The states are those with the numbers that have grown. -/
theorem mem_states_drawDeterministic {p : State} :
    p ∈ (drawDeterministic d symbols chance maxStates s).1.states ↔
      ∃ i < (grown d symbols chance maxStates s).count, State.numbered i = p := by
  rw [DistinctList.mem_iff, toList_states_drawDeterministic, firstStates, List.mem_map]
  simp only [List.mem_range]

/-- The states that have sprouted can be reached, by way of earlier ones. -/
theorem exists_path_drawDeterministic
    (h : (grown d symbols chance maxStates s).Sprouted (Nat.max maxStates 1))
    (hi : i < (grown d symbols chance maxStates s).count) :
    ∃ w, Path (drawDeterministic d symbols chance maxStates s).1 (.numbered 0) w (.numbered i) := by
  induction i using Nat.strongRecOn with
  | ind i ih =>
    rcases Nat.eq_zero_or_pos i with rfl | hpos
    · exact ⟨[], .nil _⟩
    · obtain ⟨e, he, hearlier, rfl⟩ := h.earlier i hi hpos
      obtain ⟨w, hw⟩ := ih e.1 hearlier (Nat.lt_trans hearlier hi)
      exact ⟨_, hw.append (.single (mem_transitions_drawDeterministic.2 ⟨e, he, rfl⟩))⟩

/-- An automaton that has grown to its end leads from every state by every letter to one state. -/
theorem exists_successor_drawDeterministic
    (hkeys : (grown d symbols chance maxStates s).keys =
      List.range' 0 (grown d symbols chance maxStates s).count ×ˢ letters.take symbols)
    {p : State} (hp : p ∈ (drawDeterministic d symbols chance maxStates s).1.states)
    (hc : c ∈ (drawDeterministic d symbols chance maxStates s).1.alphabet) :
    ∃ q ∈ (drawDeterministic d symbols chance maxStates s).1.states,
      ∀ q', ⟨p, .symbol c, q'⟩ ∈ (drawDeterministic d symbols chance maxStates s).1.transitions ↔
        q' = q := by
  obtain ⟨i, hi, rfl⟩ := mem_states_drawDeterministic.1 hp
  have hkey : (i, c) ∈ (grown d symbols chance maxStates s).keys := by
    rw [hkeys, ← List.range_eq_range']
    exact List.mem_product.2 ⟨List.mem_range.2 hi, SortedSet.mem_ofList.1 hc⟩
  obtain ⟨e, he, heq⟩ := List.mem_map.1 hkey
  obtain ⟨rfl, rfl⟩ := Prod.mk.inj heq
  have ht := mem_transitions_drawDeterministic.2 ⟨e, he, rfl⟩
  refine ⟨.numbered e.2.2, (wellFormed_drawDeterministic d symbols chance maxStates s).target _ ht,
    fun q' => ⟨fun ht' => ?_, fun heq => heq ▸ ht⟩⟩
  have hsame := (deterministic_drawDeterministic d symbols chance maxStates s).unique
    _ ht' _ ht rfl rfl
  exact congrArg Transition.target hsame

end

/-- **A random deterministic automaton is fully grown.**  For whatever is drawn, the growth of its
states comes to an end, and what has grown then are its states and transitions. -/
theorem isFullyGrown_drawDeterministic (hd : d.InBounds) (symbols : Nat) (chance : Float)
    (maxStates : Nat) (s : σ) :
    (∃ g s', Ends d chance (Nat.max maxStates 1) (letters.take symbols) 0 ⟨1, []⟩ s g s' ∧
      (drawDeterministic d symbols chance maxStates s).1.states = .ofList (firstStates g.count) ∧
      (drawDeterministic d symbols chance maxStates s).1.transitions = .ofList g.transitions) ∧
    (drawDeterministic d symbols chance maxStates s).1.IsFullyGrown symbols maxStates := by
  have hone : Sprouted (Nat.max maxStates 1) ⟨1, []⟩ := sprouted_one (Nat.le_max_right ..)
  obtain ⟨s', hends⟩ : ∃ s', Ends d chance (Nat.max maxStates 1) (letters.take symbols) 0 ⟨1, []⟩ s
      (grown d symbols chance maxStates s) s' :=
    ⟨_, ends_grow hd hone (Nat.le_of_eq (Nat.zero_add _).symm) s⟩
  refine ⟨⟨_, s', hends, rfl, rfl⟩, ?_⟩
  have hgrown := hends.sprouted hd hone
  constructor
  case alphabet =>
    rw [← letters_take]
    exact SortedSet.toList_ofList (sorted_letters_take symbols)
  case states =>
    refine ⟨_, hgrown.pos, ?_, toList_states_drawDeterministic⟩
    exact Nat.le_trans hgrown.atMost (Nat.le_of_eq (Nat.max_comm ..))
  case start => rfl
  case complete =>
    intro p hp c hc
    exact exists_successor_drawDeterministic (hends.keys_eq (Nat.zero_le _)) hp hc
  case noEpsilon =>
    exact (deterministic_drawDeterministic d symbols chance maxStates s).noEpsilon
  case reachable =>
    intro q hq
    obtain ⟨i, hi, rfl⟩ := mem_states_drawDeterministic.1 hq
    exact exists_path_drawDeterministic hgrown hi

/-- Up to six states over two letters, drawn by the source with a word of 64 bits. -/
theorem isFullyGrown_seeded :
    Draws.seeded.InBounds ∧ (drawDeterministic Draws.seeded 2 0.4 6 7).1.IsFullyGrown 2 6 ∧
      (drawDeterministic Draws.seeded 2 0.4 6 7).1.alphabet.toList = ['a', 'b'] :=
  have hgrown := (isFullyGrown_drawDeterministic Draws.seeded_inBounds 2 0.4 6 7).2
  ⟨Draws.seeded_inBounds, hgrown, hgrown.alphabet.trans (by decide)⟩

end Automaton
end LanguageForms
