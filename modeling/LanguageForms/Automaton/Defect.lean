/-
# When the parts of an automaton fit together

The start state and the accepting states have to be declared, and a transition
has to connect declared states by a symbol of the alphabet or by `ε`
(`Automaton.WellFormed`).  A deterministic automaton has no `ε` and at most one
transition for a state and a symbol (`Automaton.Deterministic`).

`Automaton.defect?` and `Automaton.ambiguity?` find the first thing that is
wrong, and nothing exactly when nothing is wrong (`defect?_eq_none_iff`,
`ambiguity?_eq_none_iff`).
-/
import LanguageForms.Automaton.Basic

namespace LanguageForms
namespace Automaton

/-- Something wrong with an automaton. -/
inductive Defect where
  /-- The start state is not declared. -/
  | unknownStart (q : State)
  /-- An accepting state is not declared. -/
  | unknownAccepting (q : State)
  /-- A transition leaves a state that is not declared. -/
  | unknownSource (q : State)
  /-- A transition enters a state that is not declared. -/
  | unknownTarget (source target : State)
  /-- A transition reads a symbol outside of the alphabet. -/
  | unknownSymbol (source : State) (symbol : Char)
  /-- A state has several successors on a symbol. -/
  | ambiguous (q : State) (symbol : Char) (count : Nat)
  /-- A state has a transition that reads nothing. -/
  | epsilonFrom (q : State)
deriving DecidableEq

namespace Defect

/-- The wording of a defect. -/
def message : Defect → String
  | unknownStart q => "start state `" ++ q.name ++ "` is not a declared state"
  | unknownAccepting q => "accepting state `" ++ q.name ++ "` is not a declared state"
  | unknownSource q => "transition leaves undeclared state `" ++ q.name ++ "`"
  | unknownTarget p q =>
    "transition from `" ++ p.name ++ "` enters undeclared state `" ++ q.name ++ "`"
  | unknownSymbol p c =>
    "transition from `" ++ p.name ++ "` reads `" ++ Text.symbol c ++
      "`, which is not in the alphabet"
  | ambiguous q c n =>
    "state `" ++ q.name ++ "` has " ++ n.repr ++ " successors on `" ++ Text.symbol c ++
      "`, a DFA allows at most one"
  | epsilonFrom q =>
    "state `" ++ q.name ++ "` has an ε-transition, which a DFA does not allow"

end Defect

/-- All parts of the automaton fit together. -/
structure WellFormed (a : Automaton) : Prop where
  start : a.start ∈ a.states
  accepting : ∀ q ∈ a.accepting, q ∈ a.states
  source : ∀ t ∈ a.transitions, t.source ∈ a.states
  symbol : ∀ t ∈ a.transitions, ∀ c, t.label = .symbol c → c ∈ a.alphabet
  target : ∀ t ∈ a.transitions, t.target ∈ a.states

/-- No transition reads nothing, and a state and a symbol have at most one successor. -/
structure Deterministic (a : Automaton) : Prop where
  noEpsilon : ∀ t ∈ a.transitions, t.label ≠ .epsilon
  unique : ∀ s ∈ a.transitions, ∀ t ∈ a.transitions,
    s.source = t.source → s.label = t.label → s = t

/-- What is wrong with a transition of the automaton. -/
def transitionDefect? (a : Automaton) (t : Transition) : Option Defect :=
  if ¬ t.source ∈ a.states then some (.unknownSource t.source)
  else if let some c := t.label.symbol?.filter fun c => decide (¬ c ∈ a.alphabet) then
    some (.unknownSymbol t.source c)
  else if ¬ t.target ∈ a.states then some (.unknownTarget t.source t.target)
  else none

/-- The first thing that does not fit: the start state, then the accepting states, then the
transitions. -/
def defect? (a : Automaton) : Option Defect :=
  if ¬ a.start ∈ a.states then some (.unknownStart a.start)
  else if let some q := a.accepting.toList.find? fun q => decide (¬ q ∈ a.states) then
    some (.unknownAccepting q)
  else a.transitions.toList.findSome? a.transitionDefect?

/-- Why a transition cannot belong to a deterministic automaton. -/
def transitionAmbiguity? (a : Automaton) (t : Transition) : Option Defect :=
  match t.label with
  | .epsilon => some (.epsilonFrom t.source)
  | .symbol c =>
    let count := (a.successors t.source t.label).length
    if 1 < count then some (.ambiguous t.source c count) else none

/-- The first transition that a deterministic automaton cannot have. -/
def ambiguity? (a : Automaton) : Option Defect :=
  a.transitions.toList.findSome? a.transitionAmbiguity?

/-- The first thing that keeps the automaton from being a deterministic one. -/
def deterministicDefect? (a : Automaton) : Option Defect :=
  a.defect?.or a.ambiguity?

/-- Fails with the first thing that does not fit. -/
def check (a : Automaton) : Except Defect Unit :=
  match a.defect? with
  | none => .ok ()
  | some d => .error d

/-- Fails with the first thing that keeps the automaton from being a deterministic one. -/
def checkDeterministic (a : Automaton) : Except Defect Unit :=
  match a.deterministicDefect? with
  | none => .ok ()
  | some d => .error d

/-- Whether the automaton is a deterministic one. -/
def isDeterministic (a : Automaton) : Bool := a.deterministicDefect?.isNone

/-- No defect of a transition means that its ends are states and its symbol is in the alphabet. -/
theorem transitionDefect?_eq_none_iff {a : Automaton} {t : Transition} :
    a.transitionDefect? t = none ↔ t.source ∈ a.states ∧
      (∀ c, t.label = .symbol c → c ∈ a.alphabet) ∧ t.target ∈ a.states := by
  obtain ⟨s, l, t⟩ := t
  unfold transitionDefect?
  by_cases hs : s ∈ a.states
  · by_cases ht : t ∈ a.states
    · cases l with
      | epsilon => simp [Label.symbol?, hs, ht]
      | symbol c => by_cases hc : c ∈ a.alphabet <;> simp [Label.symbol?, Option.filter, hs, ht, hc]
    · cases l with
      | epsilon => simp [Label.symbol?, hs, ht]
      | symbol c => by_cases hc : c ∈ a.alphabet <;> simp [Label.symbol?, Option.filter, hs, ht, hc]
  · simp [hs]

/-- Nothing is found exactly when everything fits. -/
theorem defect?_eq_none_iff {a : Automaton} : a.defect? = none ↔ a.WellFormed := by
  unfold defect?
  constructor
  · intro h
    split at h
    · cases h
    · next hs =>
      split at h
      · cases h
      · next ha =>
        have hf : a.accepting.toList.find? (fun q => decide (¬ q ∈ a.states)) = none :=
          Option.eq_none_iff_forall_ne_some.2 ha
        rw [List.find?_eq_none] at hf
        rw [List.findSome?_eq_none_iff] at h
        have ht := fun t (hm : t ∈ a.transitions) => transitionDefect?_eq_none_iff.1 (h t hm)
        refine ⟨Decidable.of_not_not hs, fun q hq => ?_, fun t hm => (ht t hm).1,
          fun t hm => (ht t hm).2.1, fun t hm => (ht t hm).2.2⟩
        exact Decidable.of_not_not fun hn => hf q hq (decide_eq_true hn)
  · intro h
    have hf : a.accepting.toList.find? (fun q => decide (¬ q ∈ a.states)) = none :=
      List.find?_eq_none.2 fun q hq hd => of_decide_eq_true hd (h.accepting q hq)
    rw [if_neg (fun hn => hn h.start), hf]
    exact List.findSome?_eq_none_iff.2 fun t ht =>
      transitionDefect?_eq_none_iff.2 ⟨h.source t ht, h.symbol t ht, h.target t ht⟩

/-- A list without repetition has at most one member if all its members are equal. -/
theorem length_le_one_iff {α : Type} {l : List α} (hl : l.Nodup) :
    l.length ≤ 1 ↔ ∀ x ∈ l, ∀ y ∈ l, x = y := by
  match l with
  | [] => simp
  | [x] => simp
  | x :: y :: l =>
    constructor
    · intro h
      rw [List.length_cons, List.length_cons] at h
      omega
    · intro h
      have hxy := h x (List.mem_cons_self ..) y (List.mem_cons_of_mem _ (List.mem_cons_self ..))
      exact absurd hxy ((List.pairwise_cons.1 hl).1 y (List.mem_cons_self ..))

/-- No transition is found exactly when the automaton is deterministic. -/
theorem ambiguity?_eq_none_iff {a : Automaton} : a.ambiguity? = none ↔ a.Deterministic := by
  have hsame : ∀ t : Transition, ∀ c, t.label = .symbol c →
      ((a.successors t.source t.label).length ≤ 1 ↔ ∀ x ∈ a.transitions, ∀ y ∈ a.transitions,
        x.source = t.source → x.label = t.label → y.source = t.source → y.label = t.label →
          x = y) := by
    intro t c _
    rw [successors, List.length_map, length_le_one_iff (a.transitions.nodup.filter _)]
    simp only [List.mem_filter, Bool.and_eq_true, decide_eq_true_eq]
    exact ⟨fun h x hx y hy hxs hxl hys hyl => h x ⟨hx, hxl, hxs⟩ y ⟨hy, hyl, hys⟩,
      fun h x hx y hy => h x hx.1 y hy.1 hx.2.2 hx.2.1 hy.2.2 hy.2.1⟩
  unfold ambiguity?
  rw [List.findSome?_eq_none_iff]
  constructor
  · intro h
    have hsym : ∀ t ∈ a.transitions, t.label ≠ .epsilon := by
      intro t ht hl
      have := h t ht
      rw [transitionAmbiguity?, hl] at this
      cases this
    refine ⟨hsym, fun s hs t ht hst hlt => ?_⟩
    have := h t ht
    unfold transitionAmbiguity? at this
    cases hl : t.label with
    | epsilon => exact absurd hl (hsym t ht)
    | symbol c =>
      have hle : (a.successors t.source t.label).length ≤ 1 := by
        rw [hl] at this ⊢
        refine Nat.le_of_not_lt fun hlt => ?_
        simp only [if_pos hlt] at this
        cases this
      exact (hsame t c hl).1 hle s hs t ht hst hlt rfl rfl
  · intro h t ht
    unfold transitionAmbiguity?
    cases hl : t.label with
    | epsilon => exact absurd hl (h.noEpsilon t ht)
    | symbol c =>
      have hle := (hsame t c hl).2 fun x hx y hy hxs hxl hys hyl =>
        h.unique x hx y hy (hxs.trans hys.symm) (hxl.trans hyl.symm)
      rw [hl] at hle
      exact if_neg (Nat.not_lt_of_le hle)

/-- The check is passed exactly if everything fits. -/
theorem check_eq_ok_iff {a : Automaton} : a.check = .ok () ↔ a.WellFormed := by
  rw [← defect?_eq_none_iff, check]
  cases a.defect? with
  | none => simp
  | some d => simp

/-- The stricter check is passed exactly if everything fits and nothing is ambiguous. -/
theorem checkDeterministic_eq_ok_iff {a : Automaton} :
    a.checkDeterministic = .ok () ↔ a.WellFormed ∧ a.Deterministic := by
  rw [← defect?_eq_none_iff, ← ambiguity?_eq_none_iff, checkDeterministic, deterministicDefect?]
  cases a.defect? with
  | none =>
    rw [Option.none_or, and_iff_right rfl]
    cases a.ambiguity? with
    | none => simp
    | some d => simp
  | some d => simp

end Automaton
end LanguageForms
