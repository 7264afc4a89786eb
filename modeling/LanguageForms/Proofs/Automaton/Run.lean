/-
# The states after a word are the ends of paths

`follow` finds the least set that contains the states it starts from and is
closed under the edges: it contains them (`mem_follow_of_mem`), every edge that
leaves the set ends in it (`follow_closed`), and whatever is true of the states
it starts from and passes along edges is true of all that it finds
(`follow_least`).  For the closedness one has to know of the states in the queue
that they are found, and of the others that are found that none of the edges
which are left leaves them.

With the edges that read nothing this is the closure, and `mem_after_iff` follows
by induction on the word: a state is among those after a word exactly if a path
from the start state spells the word and ends there.  So a word is accepted exactly
if a path to an accepting state spells it (`accepts_iff_exists_path`).
-/
import LanguageForms.Automaton.Closure
import LanguageForms.Automaton.Path

namespace LanguageForms
namespace Automaton

variable {edges : List (State × State)} {found : SortedSet State} {queue : List State}

/-- New targets are the ends of edges from the state that have not been found. -/
theorem mem_newTargets {p q : State} :
    q ∈ newTargets p edges found ↔ (p, q) ∈ edges ∧ ¬ q ∈ found := by
  simp only [newTargets, edgesFrom, List.mem_filter, List.mem_map, decide_eq_true_eq,
    Bool.not_eq_true', decide_eq_false_iff_not]
  constructor
  · rintro ⟨⟨⟨_, _⟩, ⟨he, rfl⟩, rfl⟩, hq⟩
    exact ⟨he, hq⟩
  · rintro ⟨he, hq⟩
    exact ⟨⟨_, ⟨he, rfl⟩, rfl⟩, hq⟩

/-- The edges elsewhere are those that begin at another state. -/
theorem mem_edgesElsewhere {p : State} {e : State × State} :
    e ∈ edgesElsewhere p edges ↔ e ∈ edges ∧ e.1 ≠ p := by
  rw [edgesElsewhere, List.mem_filter, Bool.not_eq_true', decide_eq_false_iff_not]

/-- Nothing that has been found is lost. -/
theorem mem_follow_of_mem {q : State} (hq : q ∈ found) : q ∈ follow edges found queue := by
  fun_induction follow edges found queue with
  | case1 => exact hq
  | case2 edges found p queue ih => exact ih (SortedSet.mem_insertAll.2 (.inl hq))

/-- What is true of the states that are known and passes along edges is true of all states that
are found. -/
theorem follow_least {P : State → Prop} (hfound : ∀ q ∈ found, P q)
    (hqueue : ∀ q ∈ queue, q ∈ found) (hedges : ∀ e ∈ edges, P e.1 → P e.2) :
    ∀ q ∈ follow edges found queue, P q := by
  fun_induction follow edges found queue with
  | case1 => exact hfound
  | case2 edges found p queue ih =>
    have hp : P p := hfound p (hqueue p (List.mem_cons_self ..))
    refine ih (fun q hq => ?_) (fun q hq => ?_) fun e he => hedges e (mem_edgesElsewhere.1 he).1
    · rcases SortedSet.mem_insertAll.1 hq with hq | hq
      · exact hfound q hq
      · exact hedges (p, q) (mem_newTargets.1 hq).1 hp
    · rcases List.mem_append.1 hq with hq | hq
      · exact SortedSet.mem_insertAll.2 (.inr hq)
      · exact SortedSet.mem_insertAll.2 (.inl (hqueue q (List.mem_cons_of_mem _ hq)))

/-- **Every edge from a state that is found leads to one that is found**, if the edges that are
left leave no found state except those in the queue. -/
theorem follow_closed (hedges : ∀ e ∈ edges, e.1 ∈ found → e.1 ∈ queue) :
    ∀ e ∈ edges, e.1 ∈ follow edges found queue → e.2 ∈ follow edges found queue := by
  fun_induction follow edges found queue with
  | case1 edges found =>
    intro e he hmem
    exact absurd (hedges e he hmem) List.not_mem_nil
  | case2 edges found p queue ih =>
    intro e he hmem
    by_cases hp : e.1 = p
    · -- the targets of the treated state are found already or added now
      refine mem_follow_of_mem (SortedSet.mem_insertAll.2 ?_)
      by_cases hold : e.2 ∈ found
      · exact .inl hold
      · exact .inr (mem_newTargets.2 ⟨hp ▸ he, hold⟩)
    · refine ih (fun e he hfound => ?_) e (mem_edgesElsewhere.2 ⟨he, hp⟩) hmem
      obtain ⟨he, hne⟩ := mem_edgesElsewhere.1 he
      rcases SortedSet.mem_insertAll.1 hfound with hfound | hnew
      · rcases List.mem_cons.1 (hedges e he hfound) with heq | hqueue
        · exact absurd heq hne
        · exact List.mem_append_right _ hqueue
      · exact List.mem_append_left _ hnew

variable {a : Automaton} {qs : List State} {p q : State} {w : List Char}

/-- The empty edges are the transitions that read nothing. -/
theorem mem_epsilonEdges : (p, q) ∈ a.epsilonEdges ↔ ⟨p, .epsilon, q⟩ ∈ a.transitions := by
  simp only [epsilonEdges, List.mem_map, List.mem_filter, decide_eq_true_eq]
  constructor
  · rintro ⟨⟨s, l, t⟩, ⟨ht, rfl⟩, heq⟩
    obtain ⟨rfl, rfl⟩ := Prod.mk.inj heq
    exact ht
  · exact fun h => ⟨_, ⟨h, rfl⟩, rfl⟩

/-- The closure contains the states it is a closure of. -/
theorem mem_closure_of_mem (hq : q ∈ qs) : q ∈ a.closure qs :=
  mem_follow_of_mem (SortedSet.mem_ofList.2 hq)

/-- A transition that reads nothing does not lead out of the closure. -/
theorem closure_closed (hp : p ∈ a.closure qs) (ht : ⟨p, .epsilon, q⟩ ∈ a.transitions) :
    q ∈ a.closure qs :=
  follow_closed (fun _ _ h => h) (p, q) (mem_epsilonEdges.2 ht) hp

/-- The closure lies in every set that contains the states and is closed. -/
theorem closure_least {P : State → Prop} (hqs : ∀ q ∈ qs, P q)
    (hP : ∀ p q, ⟨p, .epsilon, q⟩ ∈ a.transitions → P p → P q) :
    ∀ q ∈ a.closure qs, P q := by
  refine follow_least (fun q hq => hqs q (SortedSet.mem_ofList.1 hq)) (fun q hq => hq) ?_
  rintro ⟨p, q⟩ he
  exact hP p q (mem_epsilonEdges.1 he)

/-- No transition that reads nothing leads out of the set. -/
def IsClosed (a : Automaton) (s : SortedSet State) : Prop :=
  ∀ p q, ⟨p, .epsilon, q⟩ ∈ a.transitions → p ∈ s → q ∈ s

/-- No transition that reads nothing leaves the closure. -/
theorem isClosed_closure (a : Automaton) (qs : List State) : a.IsClosed (a.closure qs) :=
  fun _ _ ht hp => closure_closed hp ht

/-- A path that reads nothing stays in a closed set. -/
theorem IsClosed.mem_of_path {s : SortedSet State} (hs : a.IsClosed s) (h : a.Path p [] q)
    (hp : p ∈ s) : q ∈ s := by
  generalize hw : ([] : List Char) = w at h
  induction h with
  | nil => exact hp
  | @cons p r q l w ht _ ih =>
    obtain ⟨hl, rfl⟩ := List.append_eq_nil_iff.1 hw.symm
    cases l with
    | symbol c => cases hl
    | epsilon => exact ih (hs p r ht hp) rfl

/-- **The closure** consists of the ends of the paths that read nothing. -/
theorem mem_closure_iff : q ∈ a.closure qs ↔ ∃ p ∈ qs, a.Path p [] q := by
  constructor
  · refine closure_least (P := fun q => ∃ p ∈ qs, a.Path p [] q) (fun q hq => ⟨q, hq, .nil q⟩) ?_ q
    rintro r q ht ⟨p, hp, hpath⟩
    exact ⟨p, hp, hpath.append (.single ht)⟩
  · rintro ⟨p, hp, hpath⟩
    exact (isClosed_closure a qs).mem_of_path hpath (mem_closure_of_mem hp)

/-- A path that spells a symbol and more reads nothing, then the symbol, then the rest. -/
theorem path_cons_iff {c : Char} :
    a.Path p (c :: w) q ↔ ∃ r s, a.Path p [] r ∧ ⟨r, .symbol c, s⟩ ∈ a.transitions ∧
      a.Path s w q := by
  constructor
  · intro h
    generalize hv : c :: w = v at h
    induction h with
    | nil => cases hv
    | @cons p r q l u ht hpath ih =>
      cases l with
      | symbol d =>
        obtain ⟨rfl, rfl⟩ := List.cons.inj hv
        exact ⟨p, r, .nil p, ht, hpath⟩
      | epsilon =>
        obtain ⟨r', s, hr', hs, hrest⟩ := ih hv
        exact ⟨r', s, .cons ht hr', hs, hrest⟩
  · rintro ⟨r, s, hr, ht, hs⟩
    exact hr.append (.cons ht hs)

/-- After one more symbol the automaton can be where the symbol and then nothing leads to. -/
theorem mem_advance_iff {s : SortedSet State} {c : Char} :
    q ∈ a.advance s c ↔ ∃ p ∈ s, ∃ r, ⟨p, .symbol c, r⟩ ∈ a.transitions ∧ a.Path r [] q := by
  rw [advance, mem_closure_iff]
  constructor
  · rintro ⟨r, hr, hpath⟩
    obtain ⟨p, hp, ht⟩ := mem_move.1 hr
    exact ⟨p, hp, r, ht, hpath⟩
  · rintro ⟨p, hp, r, ht, hpath⟩
    exact ⟨r, mem_move.2 ⟨p, hp, ht⟩, hpath⟩

/-- Running on from a closed set follows the paths from its members. -/
theorem mem_foldl_advance_iff {s : SortedSet State} (hs : a.IsClosed s) :
    q ∈ w.foldl a.advance s ↔ ∃ p ∈ s, a.Path p w q := by
  induction w generalizing s with
  | nil => exact ⟨fun hq => ⟨q, hq, .nil q⟩, fun ⟨p, hp, h⟩ => hs.mem_of_path h hp⟩
  | cons c w ih =>
    have hnext : a.IsClosed (a.advance s c) := isClosed_closure a _
    rw [List.foldl_cons, ih hnext]
    constructor
    · rintro ⟨r, hr, hrest⟩
      obtain ⟨p, hp, r', ht, hpath⟩ := mem_advance_iff.1 hr
      exact ⟨p, hp, .cons ht (hpath.append hrest)⟩
    · rintro ⟨p, hp, hpath⟩
      obtain ⟨r, t, hr, ht, hrest⟩ := path_cons_iff.1 hpath
      have hr := hs.mem_of_path hr hp
      exact ⟨t, mem_advance_iff.2 ⟨r, hr, t, ht, .nil t⟩, hrest⟩

/-- A word with one more symbol is read by advancing once more. -/
theorem after_concat (a : Automaton) (w : List Char) (c : Char) :
    a.after (w ++ [c]) = a.advance (a.after w) c := by
  rw [after, List.foldl_append]
  rfl

/-- **The states after a word** are the ends of the paths that spell it. -/
theorem mem_after_iff : q ∈ a.after w ↔ a.Path a.start w q := by
  have hclosed : a.IsClosed a.initial := isClosed_closure a _
  rw [after, mem_foldl_advance_iff hclosed]
  constructor
  · rintro ⟨p, hp, hpath⟩
    obtain ⟨p', hp', hempty⟩ := mem_closure_iff.1 hp
    obtain rfl := List.mem_singleton.1 hp'
    exact hempty.append hpath
  · intro hpath
    exact ⟨a.start, mem_closure_of_mem (List.mem_singleton.2 rfl), hpath⟩

/-- A word is accepted if an accepting state is among those after it. -/
theorem accepts_eq_true_iff : a.accepts w = true ↔ ∃ q ∈ a.accepting, q ∈ a.after w := by
  rw [accepts, SortedSet.any_eq_true]
  simp only [isAccepting, decide_eq_true_eq]
  exact exists_congr fun q => and_comm

/-- **The simulation agrees with paths.**  A word is accepted exactly if it is spelled by a path
from the start state to an accepting state, whatever empty moves stand between its symbols and
whether or not the symbols belong to the alphabet. -/
theorem accepts_iff_exists_path (a : Automaton) (w : List Char) :
    a.accepts w = true ↔ a.Recognizes w := by
  rw [accepts_eq_true_iff]
  constructor
  · rintro ⟨q, hq, hw⟩
    exact ⟨q, mem_after_iff.1 hw, hq⟩
  · rintro ⟨q, hpath, hq⟩
    exact ⟨q, hq, mem_after_iff.2 hpath⟩

end Automaton
end LanguageForms
