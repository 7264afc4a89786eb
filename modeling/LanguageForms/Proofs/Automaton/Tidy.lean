/-
# Fragments that are entered and left at their ends only

A fragment is tidy (`Fragment.Tidy`) if no transition leads to its start or away from
its accepting state, if every state lies on a path between the two, and if few
transitions leave a state: one that reads a symbol, or at most two that read nothing
(`IsSparse`).

A part of a fragment is left from its accepting state only, so nothing new leaves its
other states (`IsPart.isSparse`), and its paths are paths of the whole
(`IsPart.visits`).  Hence fragments that are put together from tidy ones are tidy
again (`Tidy.inSequence`, `Tidy.inParallel`, `Tidy.repeated`), and their transitions
are those of the parts and the new links, none of them twice.
-/
import Mathlib.Data.List.Nodup
import LanguageForms.Proofs.Automaton.Fragment

namespace LanguageForms

/-- The transitions from a state, in order. -/
def Automaton.outgoing (a : Automaton) (q : State) : List Transition :=
  a.transitions.toList.filter fun t => decide (t.source = q)

/-- The outgoing transitions of a state are those that begin there. -/
theorem Automaton.mem_outgoing {a : Automaton} {q : State} {t : Transition} :
    t ∈ a.outgoing q ↔ t ∈ a.transitions ∧ t.source = q := by
  rw [outgoing, List.mem_filter, decide_eq_true_eq]
  exact Iff.rfl

/-- No outgoing transition is listed twice. -/
theorem Automaton.nodup_outgoing (a : Automaton) (q : State) : (a.outgoing q).Nodup :=
  a.transitions.nodup.filter _

/-- The same transitions leave a state of two automata. -/
theorem Automaton.outgoing_congr {a b : Automaton} {q : State}
    (h : ∀ t, t.source = q → (t ∈ a.transitions ↔ t ∈ b.transitions)) :
    a.outgoing q = b.outgoing q := by
  refine SortedSet.list_ext (a.transitions.sorted.filter _) (b.transitions.sorted.filter _) ?_
  intro t
  exact mem_outgoing.trans ((and_congr_left (h t)).trans mem_outgoing.symm)

/-- One transition that reads a symbol, or at most two that read nothing. -/
def IsSparse (l : List Transition) : Prop :=
  (∃ p c q, l = [⟨p, .symbol c, q⟩]) ∨ ((∀ t ∈ l, t.label = .epsilon) ∧ l.length ≤ 2)

/-- Links from one state to at most two others are few. -/
theorem isSparse_of_links {l : List Transition} {p : State} (exits : List State) (hl : l.Nodup)
    (hexits : exits.length ≤ 2) (h : ∀ t ∈ l, ∃ q ∈ exits, t = ⟨p, .epsilon, q⟩) : IsSparse l := by
  refine .inr ⟨fun t ht => ?_, ?_⟩
  · obtain ⟨q, -, rfl⟩ := h t ht
    rfl
  · have hsub : l ⊆ exits.map fun q => ⟨p, .epsilon, q⟩ := by
      intro t ht
      obtain ⟨q, hq, rfl⟩ := h t ht
      exact List.mem_map_of_mem hq
    have hlength := hl.length_le_of_subset hsub
    rw [List.length_map] at hlength
    omega

namespace Fragment

variable {f g left right body : Fragment} {s e p q : State} {t : Transition} {u v : List Char}
  {exits : List State}

/-- The transitions that leave a state. -/
abbrev outgoing (f : Fragment) (q : State) : List Transition := (f.toAutomaton .empty).outgoing q

/-- A path from the start to the accepting state leads through the state. -/
def Visits (f : Fragment) (q : State) : Prop :=
  ∃ u v, f.Path f.start u q ∧ f.Path q v f.accept

/-- The fragment is entered at its start and left at its accepting state, visits all its states,
and has few transitions from each of them. -/
structure Tidy (f : Fragment) : Prop where
  fits : f.Fits
  enter : ∀ t ∈ f.transitions, t.target ≠ f.start
  leave : ∀ t ∈ f.transitions, t.source ≠ f.accept
  visits : ∀ q ∈ f.states, f.Visits q
  sparse : ∀ q ∈ f.states, IsSparse (f.outgoing q)

/-- A tidy fragment can be passed from end to end. -/
theorem Tidy.exists_path (h : f.Tidy) : ∃ u, f.Path f.start u f.accept := by
  obtain ⟨u, v, hu, hv⟩ := h.visits _ h.fits.start
  exact ⟨u ++ v, hu.append hv⟩

/-! ### Parts -/

/-- What is visited in a part is visited in the whole, if the ends of the part are linked. -/
theorem IsPart.visits (h : f.IsPart g exits) (hin : g.Path g.start u f.start)
    (hout : g.Path f.accept v g.accept) (hq : f.Visits q) : g.Visits q := by
  obtain ⟨x, y, hx, hy⟩ := hq
  exact ⟨u ++ x, y ++ v, hin.append (h.path hx), (h.path hy).append hout⟩

/-- **Nothing new leaves the states of a part**, but for the links to the exits. -/
theorem IsPart.isSparse (h : f.IsPart g exits) (hf : f.Tidy) (hexits : exits.length ≤ 2)
    (hq : q ∈ f.states) : IsSparse (g.outgoing q) := by
  by_cases haccept : q = f.accept
  · subst haccept
    refine isSparse_of_links (p := f.accept) exits (Automaton.nodup_outgoing _ _) hexits
      fun t ht => ?_
    obtain ⟨hg, hsource⟩ := Automaton.mem_outgoing.1 ht
    exact (h.leave t hg (hsource ▸ hq)).resolve_left fun htf => hf.leave t htf hsource
  · have hsame : g.outgoing q = f.outgoing q := by
      refine Automaton.outgoing_congr fun t hsource => ⟨fun hg => ?_, h.sub t⟩
      rcases h.leave t hg (hsource ▸ hq) with hm | ⟨r, -, rfl⟩
      · exact hm
      · exact absurd hsource.symm haccept
    rw [hsame]
    exact hf.sparse q hq

/-- A state from which nothing but two links leads on has few transitions. -/
theorem isSparse_of_exits (x y : State)
    (h : ∀ t ∈ f.transitions, t.source = q → t = ⟨q, .epsilon, x⟩ ∨ t = ⟨q, .epsilon, y⟩) :
    IsSparse (f.outgoing q) := by
  refine isSparse_of_links (p := q) [x, y] (Automaton.nodup_outgoing _ _) (by simp) fun t ht => ?_
  obtain ⟨hm, hsource⟩ := Automaton.mem_outgoing.1 ht
  rcases h t hm hsource with rfl | rfl
  · exact ⟨x, List.mem_cons_self, rfl⟩
  · exact ⟨y, List.mem_cons_of_mem x List.mem_cons_self, rfl⟩

/-- A state that nothing leaves has few transitions. -/
theorem isSparse_of_leave (h : ∀ t ∈ f.transitions, t.source ≠ q) : IsSparse (f.outgoing q) :=
  isSparse_of_exits q q fun t ht hsource => absurd hsource (h t ht)

/-! ### A basic fragment -/

/-- A basic fragment is tidy if its two states differ. -/
theorem tidy_basic (hne : s ≠ e) (l : Label) : (basic s e l).Tidy where
  fits := fits_basic s e l
  enter t ht := by
    rw [SortedSet.mem_singleton.1 ht]
    exact hne.symm
  leave t ht := by
    rw [SortedSet.mem_singleton.1 ht]
    exact hne
  visits q hq := by
    have hlink : (basic s e l).Path s l.spelled e :=
      Automaton.Path.single (SortedSet.mem_singleton.2 rfl)
    rcases mem_states_basic.1 hq with rfl | rfl
    · exact ⟨_, _, .nil _, hlink⟩
    · exact ⟨_, _, hlink, .nil _⟩
  sparse q hq := by
    have hall : (basic s e l).outgoing q = if s = q then [⟨s, l, e⟩] else [] :=
      List.filter_singleton.trans (by simp)
    rw [hall]
    split
    · cases l with
      | symbol c => exact .inl ⟨s, c, e, rfl⟩
      | epsilon => exact .inr (by simp)
    · exact .inr (by simp)

/-! ### One fragment after the other -/

section
variable (hl : left.Tidy) (hr : right.Tidy) (hlr : ∀ q ∈ left.states, ¬ q ∈ right.states)
include hl hr hlr

/-- No transition of one part is one of the other. -/
theorem nodup_transitions_parts :
    (left.transitions.toList ++ right.transitions.toList).Nodup := by
  refine List.nodup_append.2 ⟨left.transitions.nodup, right.transitions.nodup, ?_⟩
  rintro t ht t' ht' rfl
  exact hlr _ (hl.fits.source t ht) (hr.fits.source t ht')

/-- **A sequence** of tidy fragments is tidy. -/
theorem Tidy.inSequence : (inSequence left right).Tidy := by
  have hleft := isPart_left_inSequence hl.fits hr.fits hlr
  have hright := isPart_right_inSequence hl.fits hr.fits hlr
  have hlink : (Fragment.inSequence left right).Path left.accept [] right.start :=
    path_link (mem_transitions_inSequence.2 (.inl rfl))
  obtain ⟨x, hx⟩ := hl.exists_path
  obtain ⟨y, hy⟩ := hr.exists_path
  constructor
  case fits => exact hl.fits.inSequence hr.fits
  case enter =>
    intro t ht heq
    have hstart : t.target = left.start := heq
    rcases mem_transitions_inSequence.1 ht with rfl | ht | ht
    · exact hlr _ hl.fits.start (hstart ▸ hr.fits.start)
    · exact hl.enter t ht hstart
    · exact hlr _ hl.fits.start (hstart ▸ hr.fits.target t ht)
  case leave =>
    intro t ht heq
    have haccept : right.accept = t.source := heq.symm
    rcases mem_transitions_inSequence.1 ht with rfl | ht | ht
    · have hends : right.accept = left.accept := haccept
      exact hlr _ hl.fits.accept (hends ▸ hr.fits.accept)
    · exact hlr _ (hl.fits.source t ht) (haccept ▸ hr.fits.accept)
    · exact hr.leave t ht haccept.symm
  case visits =>
    intro q hq
    rcases mem_states_inSequence.1 hq with hq | hq
    · exact hleft.visits (.nil _) (hlink.append (hright.path hy)) (hl.visits q hq)
    · exact hright.visits ((hleft.path hx).append hlink) (.nil _) (hr.visits q hq)
  case sparse =>
    intro q hq
    rcases mem_states_inSequence.1 hq with hq | hq
    · exact hleft.isSparse hl (by simp) hq
    · exact hright.isSparse hr (by simp) hq

/-- A sequence has one transition more than its parts. -/
theorem size_transitions_inSequence : (Fragment.inSequence left right).transitions.size =
    left.transitions.size + right.transitions.size + 1 := by
  have hnodup : (⟨left.accept, .epsilon, right.start⟩ ::
      (left.transitions.toList ++ right.transitions.toList)).Nodup := by
    refine List.nodup_cons.2 ⟨fun hm => ?_, nodup_transitions_parts hl hr hlr⟩
    rcases List.mem_append.1 hm with hm | hm
    · exact hl.leave _ hm rfl
    · exact hr.enter _ hm rfl
  rw [SortedSet.size_eq_length hnodup fun t => ?_]
  · rw [List.length_cons, List.length_append]
    rfl
  · rw [mem_transitions_inSequence, List.mem_cons, List.mem_append]
    exact Iff.rfl

end

/-! ### Two fragments side by side -/

/-- What links two fragments side by side to the states around them. -/
def parallelLinks (s e : State) (left right : Fragment) : List Transition :=
  [⟨s, .epsilon, left.start⟩, ⟨left.accept, .epsilon, e⟩, ⟨s, .epsilon, right.start⟩,
    ⟨right.accept, .epsilon, e⟩]

section
variable (hl : left.Tidy) (hr : right.Tidy) (hlr : ∀ q ∈ left.states, ¬ q ∈ right.states)
  (hs : ¬ (s ∈ left.states ∨ s ∈ right.states)) (he : ¬ (e ∈ left.states ∨ e ∈ right.states))
  (hne : s ≠ e)
include hl hr hlr hs he hne

/-- **A choice** of tidy fragments is tidy. -/
theorem Tidy.inParallel : (inParallel s e left right).Tidy := by
  have hleft := isPart_left_inParallel (e := e) hl.fits hr.fits hlr hs
  have hright := isPart_right_inParallel (e := e) hl.fits hr.fits hlr hs
  have hlink : ∀ t, t = ⟨s, .epsilon, left.start⟩ ∨ t = ⟨left.accept, .epsilon, e⟩ ∨
      t = ⟨s, .epsilon, right.start⟩ ∨ t = ⟨right.accept, .epsilon, e⟩ →
      t ∈ (Fragment.inParallel s e left right).transitions := fun t ht =>
    mem_transitions_inParallel.2 (.inr (.inr ht))
  have hin := path_link (hlink _ (.inl rfl))
  have hout := path_link (hlink _ (.inr (.inl rfl)))
  have hin' := path_link (hlink _ (.inr (.inr (.inl rfl))))
  have hout' := path_link (hlink _ (.inr (.inr (.inr rfl))))
  obtain ⟨x, hx⟩ := hl.exists_path
  have hthrough := hin.append ((hleft.path hx).append hout)
  constructor
  case fits => exact hl.fits.inParallel hr.fits
  case enter =>
    intro t ht heq
    have hstart : t.target = s := heq
    rcases mem_transitions_inParallel.1 ht with ht | ht | rfl | rfl | rfl | rfl
    · exact hs (.inl (hstart ▸ hl.fits.target t ht))
    · exact hs (.inr (hstart ▸ hr.fits.target t ht))
    · exact hs (.inl (hstart ▸ hl.fits.start))
    · exact hne hstart.symm
    · exact hs (.inr (hstart ▸ hr.fits.start))
    · exact hne hstart.symm
  case leave => exact fun t ht => source_ne_accept_inParallel hl.fits hr.fits he hne ht
  case visits =>
    intro q hq
    rcases mem_states_inParallel.1 hq with hq | hq | rfl | rfl
    · exact hleft.visits hin hout (hl.visits q hq)
    · exact hright.visits hin' hout' (hr.visits q hq)
    · exact ⟨_, _, .nil _, hthrough⟩
    · exact ⟨_, _, hthrough, .nil _⟩
  case sparse =>
    intro q hq
    rcases mem_states_inParallel.1 hq with hq | hq | rfl | rfl
    · exact hleft.isSparse hl (by simp) hq
    · exact hright.isSparse hr (by simp) hq
    · exact isSparse_of_exits left.start right.start fun t ht hsource =>
        eq_of_source_start_inParallel hl.fits hr.fits hs ht hsource
    · exact isSparse_of_leave fun t ht => source_ne_accept_inParallel hl.fits hr.fits he hne ht

/-- Fragments side by side have four transitions more than their parts. -/
theorem size_transitions_inParallel : (Fragment.inParallel s e left right).transitions.size =
    left.transitions.size + right.transitions.size + 4 := by
  have hstarts : left.start ≠ right.start := fun h => hlr _ hl.fits.start (h ▸ hr.fits.start)
  have haccepts : left.accept ≠ right.accept := fun h =>
    hlr _ hl.fits.accept (h ▸ hr.fits.accept)
  have hleft : s ≠ left.accept := fun h => hs (.inl (h ▸ hl.fits.accept))
  have hright : s ≠ right.accept := fun h => hs (.inr (h ▸ hr.fits.accept))
  have hlinks : (parallelLinks s e left right).Nodup := by
    simp [parallelLinks, hstarts, haccepts, hleft, hright, hleft.symm]
  have hends : ∀ t ∈ parallelLinks s e left right, t.source = s ∨ t.target = e := by
    simp [parallelLinks]
  have hnew : ∀ t, (t.source = s ∨ t.target = e) →
      ¬ t ∈ left.transitions.toList ++ right.transitions.toList := by
    intro t ht hm
    rcases List.mem_append.1 hm with hm | hm
    · rcases ht with rfl | rfl
      · exact hs (.inl (hl.fits.source t hm))
      · exact he (.inl (hl.fits.target t hm))
    · rcases ht with rfl | rfl
      · exact hs (.inr (hr.fits.source t hm))
      · exact he (.inr (hr.fits.target t hm))
  have hnodup := List.nodup_append.2 ⟨nodup_transitions_parts hl hr hlr, hlinks,
    fun t ht t' ht' heq => hnew t' (hends t' ht') (heq ▸ ht)⟩
  rw [SortedSet.size_eq_length hnodup fun t => ?_]
  · rw [List.length_append, List.length_append]
    rfl
  · rw [inParallel, SortedSet.mem_insertAll, SortedSet.mem_union, List.mem_append, List.mem_append]
    exact Iff.rfl

end

/-! ### A repeated fragment -/

/-- What links a repeated fragment to itself and to the states around it. -/
def repetitionLinks (s e : State) (body : Fragment) : List Transition :=
  [⟨s, .epsilon, body.start⟩, ⟨s, .epsilon, e⟩, ⟨body.accept, .epsilon, body.start⟩,
    ⟨body.accept, .epsilon, e⟩]

section
variable (hb : body.Tidy) (hs : ¬ s ∈ body.states) (he : ¬ e ∈ body.states) (hne : s ≠ e)
include hb hs he hne

/-- **A repetition** of a tidy fragment is tidy. -/
theorem Tidy.repeated : (repeated s e body).Tidy := by
  have hpart := isPart_repeated (e := e) hb.fits hs
  have hlink : ∀ t, t = ⟨s, .epsilon, body.start⟩ ∨ t = ⟨s, .epsilon, e⟩ ∨
      t = ⟨body.accept, .epsilon, body.start⟩ ∨ t = ⟨body.accept, .epsilon, e⟩ →
      t ∈ (Fragment.repeated s e body).transitions := fun t ht =>
    mem_transitions_repeated.2 (.inr ht)
  have hin := path_link (hlink _ (.inl rfl))
  have hpast := path_link (hlink _ (.inr (.inl rfl)))
  have hout := path_link (hlink _ (.inr (.inr (.inr rfl))))
  constructor
  case fits => exact hb.fits.repeated
  case enter =>
    intro t ht heq
    have hstart : t.target = s := heq
    rcases mem_transitions_repeated.1 ht with ht | rfl | rfl | rfl | rfl
    · exact hs (hstart ▸ hb.fits.target t ht)
    · exact hs (hstart ▸ hb.fits.start)
    · exact hne hstart.symm
    · exact hs (hstart ▸ hb.fits.start)
    · exact hne hstart.symm
  case leave => exact fun t ht => source_ne_accept_repeated hb.fits he hne ht
  case visits =>
    intro q hq
    rcases mem_states_repeated.1 hq with hq | rfl | rfl
    · exact hpart.visits hin hout (hb.visits q hq)
    · exact ⟨_, _, .nil _, hpast⟩
    · exact ⟨_, _, hpast, .nil _⟩
  case sparse =>
    intro q hq
    rcases mem_states_repeated.1 hq with hq | rfl | rfl
    · exact hpart.isSparse hb (Nat.le_refl _) hq
    · exact isSparse_of_exits body.start e fun t ht hsource =>
        eq_of_source_start_repeated hb.fits hs ht hsource
    · exact isSparse_of_leave fun t ht => source_ne_accept_repeated hb.fits he hne ht

/-- A repeated fragment has four transitions more than the inner one. -/
theorem size_transitions_repeated : (Fragment.repeated s e body).transitions.size =
    body.transitions.size + 4 := by
  have hstart : body.start ≠ e := fun h => he (h ▸ hb.fits.start)
  have haccept : s ≠ body.accept := fun h => hs (h ▸ hb.fits.accept)
  have hlinks : (repetitionLinks s e body).Nodup := by
    simp [repetitionLinks, hstart, haccept]
  have hends : ∀ t ∈ repetitionLinks s e body, t.source = s ∨ t.source = body.accept := by
    simp [repetitionLinks]
  have hnew : ∀ t, (t.source = s ∨ t.source = body.accept) → ¬ t ∈ body.transitions.toList := by
    rintro t (rfl | haccept) hm
    · exact hs (hb.fits.source t hm)
    · exact hb.leave t hm haccept
  have hnodup := List.nodup_append.2 ⟨body.transitions.nodup, hlinks,
    fun t ht t' ht' heq => hnew t' (hends t' ht') (heq ▸ ht)⟩
  rw [SortedSet.size_eq_length hnodup fun t => ?_]
  · rw [List.length_append]
    rfl
  · rw [repeated, SortedSet.mem_insertAll, List.mem_append]
    exact Iff.rfl

end

end Fragment
end LanguageForms
