/-
# The words of fragments put together

A fragment spells a word if a path from its start to its accepting state does; as
an automaton it accepts just these words (`accepts_toAutomaton_iff`).
`spells_inSequence_iff`, `spells_inParallel_iff` and `spells_repeated_iff` say
which words the fragments spell that are put together from others with no state
in common.

A path through such a fragment cannot go astray in a part of it (`IsPart`): it
leaves the part from its accepting state only, and reads nothing on the way out.
So a word that leads from inside a part to a state beyond it begins with one that
leads to the accepting state of the part (`IsPart.through`).  The part of a
repetition may be left to its own start; what is known of the rest of the word has
to hold with one more word of the part in front of it.
-/
import LanguageForms.Automaton.Fragment
import LanguageForms.Proofs.Automaton.Run
import LanguageForms.Regex.Language

namespace LanguageForms
namespace Fragment

/-- Transitions of the fragment lead from one state to another and spell a word. -/
abbrev Path (f : Fragment) (p : State) (w : List Char) (q : State) : Prop :=
  (f.toAutomaton .empty).Path p w q

/-- A path from the start to the accepting state spells the word. -/
def Spells (f : Fragment) (w : List Char) : Prop := f.Path f.start w f.accept

/-- The start, the accepting state and the ends of all transitions are states. -/
structure Fits (f : Fragment) : Prop where
  start : f.start ∈ f.states
  accept : f.accept ∈ f.states
  source : ∀ t ∈ f.transitions, t.source ∈ f.states
  target : ∀ t ∈ f.transitions, t.target ∈ f.states

variable {f g left right body : Fragment} {s e d p q : State} {t : Transition}
  {u v w : List Char}

/-- The alphabet does not matter for paths. -/
theorem path_toAutomaton_iff {alphabet : SortedSet Char} :
    (f.toAutomaton alphabet).Path p w q ↔ f.Path p w q :=
  ⟨Automaton.Path.mono (a := f.toAutomaton alphabet) (b := f.toAutomaton .empty) fun _ ht => ht,
    Automaton.Path.mono (a := f.toAutomaton .empty) (b := f.toAutomaton alphabet) fun _ ht => ht⟩

/-- A fragment as an automaton accepts the words that it spells. -/
theorem accepts_toAutomaton_iff (f : Fragment) (alphabet : SortedSet Char) :
    (f.toAutomaton alphabet).accepts w = true ↔ f.Spells w := by
  rw [Automaton.accepts_eq_true_iff]
  constructor
  · rintro ⟨q, hq, hw⟩
    obtain rfl : q = f.accept := SortedSet.mem_singleton.1 hq
    exact path_toAutomaton_iff.1 (Automaton.mem_after_iff.1 hw)
  · intro hw
    refine ⟨f.accept, SortedSet.mem_singleton.2 rfl, Automaton.mem_after_iff.2 ?_⟩
    exact path_toAutomaton_iff.2 hw

/-- A transition that reads nothing is a path that spells nothing. -/
theorem path_link (h : ⟨p, .epsilon, q⟩ ∈ f.transitions) : f.Path p [] q :=
  Automaton.Path.cons (a := f.toAutomaton .empty) (l := .epsilon) h (.nil q)

/-! ### Parts of a fragment -/

/-- A fragment is part of another one that leaves it only from its accepting state, by reading
nothing, to one of the exits. -/
structure IsPart (f g : Fragment) (exits : List State) : Prop where
  fits : f.Fits
  sub : ∀ t ∈ f.transitions, t ∈ g.transitions
  leave : ∀ t ∈ g.transitions, t.source ∈ f.states → t ∈ f.transitions ∨
    ∃ r ∈ exits, t = ⟨f.accept, .epsilon, r⟩

variable {exits : List State}

/-- A path of a part is a path of the whole. -/
theorem IsPart.path (h : f.IsPart g exits) (hpath : f.Path p w q) : g.Path p w q :=
  hpath.mono h.sub

/-- **The way out of a part** leads through its accepting state.  The rest of the word has a
property that words have from all exits, or that is kept by words of the part if the exit is its
start. -/
theorem IsPart.through (h : f.IsPart g exits) {P : List Char → Prop}
    (hend : d ∈ f.states → d = f.accept ∧ P [])
    (hexit : ∀ r ∈ exits, (∀ v, g.Path r v d → P v) ∨
      r = f.start ∧ ∀ u v, f.Spells u → P v → P (u ++ v))
    (hpath : g.Path q w d) (hq : q ∈ f.states) :
    ∃ u v, w = u ++ v ∧ f.Path q u f.accept ∧ P v := by
  induction hpath with
  | nil q =>
    obtain ⟨rfl, hnil⟩ := hend hq
    exact ⟨[], [], rfl, .nil _, hnil⟩
  | @cons q r d l w ht hrest ih =>
    rcases h.leave _ ht hq with hf | ⟨r', hr', heq⟩
    · obtain ⟨u, v, rfl, hu, hv⟩ := ih hend hexit (h.fits.target _ hf)
      exact ⟨l.spelled ++ u, v, (List.append_assoc ..).symm, .cons hf hu, hv⟩
    · obtain ⟨rfl, rfl, rfl⟩ := Transition.mk.inj heq
      rcases hexit r hr' with hout | ⟨rfl, hback⟩
      · exact ⟨[], w, rfl, .nil _, hout w hrest⟩
      · -- once more through the part
        obtain ⟨u, v, rfl, hu, hv⟩ := ih hend hexit h.fits.start
        exact ⟨[], u ++ v, rfl, .nil _, hback u v hu hv⟩

/-- If the only exit is the end of all paths, then what leads there from the start of the part is
a word of the part. -/
theorem IsPart.spells_of_path (h : f.IsPart g [e]) (he : ¬ e ∈ f.states)
    (hend : ∀ t ∈ g.transitions, t.source ≠ e) (hpath : g.Path f.start w e) : f.Spells w := by
  have hexit : ∀ r ∈ [e], ∀ v, g.Path r v e → v = [] := by
    intro r hr v hv
    rw [List.mem_singleton.1 hr] at hv
    exact hv.eq_nil_of_end hend
  obtain ⟨u, v, rfl, hu, rfl⟩ := h.through (P := fun v => v = []) (fun hd => absurd hd he)
    (fun r hr => .inl (hexit r hr)) hpath h.fits.start
  rw [List.append_nil]
  exact hu

/-! ### A basic fragment -/

/-- A basic fragment has two states. -/
theorem mem_states_basic {l : Label} : q ∈ (basic s e l).states ↔ q = s ∨ q = e := by
  show q ∈ DistinctList.ofList [s, e] ↔ _
  rw [DistinctList.mem_ofList, List.mem_cons, List.mem_singleton]

/-- The parts of a basic fragment fit together. -/
theorem fits_basic (s e : State) (l : Label) : (basic s e l).Fits where
  start := mem_states_basic.2 (.inl rfl)
  accept := mem_states_basic.2 (.inr rfl)
  source t ht := by
    rw [SortedSet.mem_singleton.1 ht]
    exact mem_states_basic.2 (.inl rfl)
  target t ht := by
    rw [SortedSet.mem_singleton.1 ht]
    exact mem_states_basic.2 (.inr rfl)

/-- Two states that are linked spell the label of the link. -/
theorem spells_basic_iff {l : Label} (hne : s ≠ e) : (basic s e l).Spells w ↔ w = l.spelled := by
  have hlink : ∀ t ∈ (basic s e l).transitions, t = ⟨s, l, e⟩ := fun _ => SortedSet.mem_singleton.1
  have hend : ∀ t ∈ (basic s e l).transitions, t.source ≠ e := by
    intro t ht
    rw [hlink t ht]
    exact hne
  constructor
  · intro h
    cases h with
    | nil => exact absurd rfl hne
    | @cons _ r _ k v ht hrest =>
      obtain ⟨-, rfl, rfl⟩ := Transition.mk.inj (hlink _ ht)
      rw [hrest.eq_nil_of_end hend, List.append_nil]
  · rintro rfl
    exact Automaton.Path.single (SortedSet.mem_singleton.2 rfl)

/-! ### One fragment after the other -/

/-- The states of a sequence are those of both parts. -/
theorem mem_states_inSequence :
    q ∈ (inSequence left right).states ↔ q ∈ left.states ∨ q ∈ right.states :=
  DistinctList.mem_insertAll

/-- The transitions of a sequence are those of both parts, and one from the first to the second. -/
theorem mem_transitions_inSequence :
    t ∈ (inSequence left right).transitions ↔
      t = ⟨left.accept, .epsilon, right.start⟩ ∨ t ∈ left.transitions ∨ t ∈ right.transitions := by
  rw [inSequence, SortedSet.mem_insert, SortedSet.mem_union]

/-- A sequence of fragments that fit together fits together. -/
theorem Fits.inSequence (hl : left.Fits) (hr : right.Fits) : (inSequence left right).Fits where
  start := mem_states_inSequence.2 (.inl hl.start)
  accept := mem_states_inSequence.2 (.inr hr.accept)
  source t ht := by
    rw [mem_states_inSequence]
    rcases mem_transitions_inSequence.1 ht with rfl | ht | ht
    · exact .inl hl.accept
    · exact .inl (hl.source t ht)
    · exact .inr (hr.source t ht)
  target t ht := by
    rw [mem_states_inSequence]
    rcases mem_transitions_inSequence.1 ht with rfl | ht | ht
    · exact .inr hr.start
    · exact .inl (hl.target t ht)
    · exact .inr (hr.target t ht)

section
variable (hl : left.Fits) (hr : right.Fits) (hlr : ∀ q ∈ left.states, ¬ q ∈ right.states)
include hl hr hlr

/-- The first fragment of a sequence is left to the start of the second one only. -/
theorem isPart_left_inSequence : left.IsPart (inSequence left right) [right.start] where
  fits := hl
  sub t ht := mem_transitions_inSequence.2 (.inr (.inl ht))
  leave t ht hq := by
    rcases mem_transitions_inSequence.1 ht with rfl | ht | ht
    · exact .inr ⟨right.start, List.mem_singleton.2 rfl, rfl⟩
    · exact .inl ht
    · exact absurd (hr.source t ht) (hlr _ hq)

/-- The second fragment of a sequence is never left. -/
theorem isPart_right_inSequence : right.IsPart (inSequence left right) [] where
  fits := hr
  sub t ht := mem_transitions_inSequence.2 (.inr (.inr ht))
  leave t ht hq := by
    rcases mem_transitions_inSequence.1 ht with rfl | ht | ht
    · exact absurd hq (hlr _ hl.accept)
    · exact absurd hq (hlr _ (hl.source t ht))
    · exact .inl ht

/-- **A sequence** spells a word of the first part followed by one of the second. -/
theorem spells_inSequence_iff :
    (inSequence left right).Spells w ↔ ∃ u v, w = u ++ v ∧ left.Spells u ∧ right.Spells v := by
  have hleft := isPart_left_inSequence hl hr hlr
  have hright := isPart_right_inSequence hl hr hlr
  constructor
  · intro hw
    refine hleft.through (P := right.Spells) (fun hd => ?_) (fun r hexit => .inl fun v hv => ?_)
      hw hl.start
    · exact absurd hr.accept (hlr _ hd)
    · obtain rfl := List.mem_singleton.1 hexit
      obtain ⟨x, y, rfl, hx, rfl⟩ := hright.through (P := fun y => y = [])
        (fun _ => ⟨rfl, rfl⟩) (fun r hr => absurd hr List.not_mem_nil) hv hr.start
      rw [List.append_nil]
      exact hx
  · rintro ⟨u, v, rfl, hu, hv⟩
    have hlink : ⟨left.accept, .epsilon, right.start⟩ ∈ (inSequence left right).transitions :=
      mem_transitions_inSequence.2 (.inl rfl)
    exact (hleft.path hu).append ((path_link hlink).append (hright.path hv))

end

/-! ### Two fragments side by side -/

/-- The states of a choice are those of both parts and two new ones. -/
theorem mem_states_inParallel :
    q ∈ (inParallel s e left right).states ↔
      q ∈ left.states ∨ q ∈ right.states ∨ q = s ∨ q = e := by
  rw [inParallel, DistinctList.mem_insertAll, DistinctList.mem_insertAll, ← DistinctList.mem_iff,
    or_assoc, List.mem_cons, List.mem_singleton]

/-- The transitions of a choice are those of both parts, and four that lead into the parts and out
of them. -/
theorem mem_transitions_inParallel :
    t ∈ (inParallel s e left right).transitions ↔
      t ∈ left.transitions ∨ t ∈ right.transitions ∨
        t = ⟨s, .epsilon, left.start⟩ ∨ t = ⟨left.accept, .epsilon, e⟩ ∨
        t = ⟨s, .epsilon, right.start⟩ ∨ t = ⟨right.accept, .epsilon, e⟩ := by
  rw [inParallel, SortedSet.mem_insertAll, SortedSet.mem_union, or_assoc]
  simp only [List.mem_cons, List.not_mem_nil, or_false]

/-- A choice of fragments that fit together fits together. -/
theorem Fits.inParallel (hl : left.Fits) (hr : right.Fits) :
    (inParallel s e left right).Fits where
  start := mem_states_inParallel.2 (.inr (.inr (.inl rfl)))
  accept := mem_states_inParallel.2 (.inr (.inr (.inr rfl)))
  source t ht := by
    rw [mem_states_inParallel]
    rcases mem_transitions_inParallel.1 ht with ht | ht | rfl | rfl | rfl | rfl
    · exact .inl (hl.source t ht)
    · exact .inr (.inl (hr.source t ht))
    · exact .inr (.inr (.inl rfl))
    · exact .inl hl.accept
    · exact .inr (.inr (.inl rfl))
    · exact .inr (.inl hr.accept)
  target t ht := by
    rw [mem_states_inParallel]
    rcases mem_transitions_inParallel.1 ht with ht | ht | rfl | rfl | rfl | rfl
    · exact .inl (hl.target t ht)
    · exact .inr (.inl (hr.target t ht))
    · exact .inl hl.start
    · exact .inr (.inr (.inr rfl))
    · exact .inr (.inl hr.start)
    · exact .inr (.inr (.inr rfl))

section
variable (hl : left.Fits) (hr : right.Fits) (hlr : ∀ q ∈ left.states, ¬ q ∈ right.states)
  (hs : ¬ (s ∈ left.states ∨ s ∈ right.states)) (he : ¬ (e ∈ left.states ∨ e ∈ right.states))
  (hne : s ≠ e)

include hl hr hlr hs in
/-- The first fragment of a choice is left to the new accepting state only. -/
theorem isPart_left_inParallel : left.IsPart (inParallel s e left right) [e] where
  fits := hl
  sub t ht := mem_transitions_inParallel.2 (.inl ht)
  leave t ht hq := by
    rcases mem_transitions_inParallel.1 ht with ht | ht | rfl | rfl | rfl | rfl
    · exact .inl ht
    · exact absurd (hr.source t ht) (hlr _ hq)
    · exact absurd (.inl hq) hs
    · exact .inr ⟨e, List.mem_singleton.2 rfl, rfl⟩
    · exact absurd (.inl hq) hs
    · exact absurd hr.accept (hlr _ hq)

include hl hr hlr hs in
/-- The second fragment of a choice is left to the new accepting state only. -/
theorem isPart_right_inParallel : right.IsPart (inParallel s e left right) [e] where
  fits := hr
  sub t ht := mem_transitions_inParallel.2 (.inr (.inl ht))
  leave t ht hq := by
    rcases mem_transitions_inParallel.1 ht with ht | ht | rfl | rfl | rfl | rfl
    · exact absurd hq (hlr _ (hl.source t ht))
    · exact .inl ht
    · exact absurd (.inr hq) hs
    · exact absurd hq (hlr _ hl.accept)
    · exact absurd (.inr hq) hs
    · exact .inr ⟨e, List.mem_singleton.2 rfl, rfl⟩

include hl hr he hne in
/-- No transition leaves the new accepting state. -/
theorem source_ne_accept_inParallel (ht : t ∈ (inParallel s e left right).transitions) :
    t.source ≠ e := by
  intro hsource
  rcases mem_transitions_inParallel.1 ht with ht | ht | rfl | rfl | rfl | rfl
  · exact he (.inl (hsource ▸ hl.source t ht))
  · exact he (.inr (hsource ▸ hr.source t ht))
  · exact hne hsource
  · exact he (.inl (hsource ▸ hl.accept))
  · exact hne hsource
  · exact he (.inr (hsource ▸ hr.accept))

include hl hr hs in
/-- The transitions from the new start lead to the starts of the two parts. -/
theorem eq_of_source_start_inParallel (ht : t ∈ (inParallel s e left right).transitions)
    (hsource : t.source = s) :
    t = ⟨s, .epsilon, left.start⟩ ∨ t = ⟨s, .epsilon, right.start⟩ := by
  subst hsource
  rcases mem_transitions_inParallel.1 ht with ht | ht | ht | ht | ht | ht
  · exact absurd (.inl (hl.source t ht)) hs
  · exact absurd (.inr (hr.source t ht)) hs
  · exact .inl ht
  · rw [ht] at hs
    exact absurd (.inl hl.accept) hs
  · exact .inr ht
  · rw [ht] at hs
    exact absurd (.inr hr.accept) hs

include hl hr hlr hs he hne in
/-- **Two fragments side by side** spell the words of either. -/
theorem spells_inParallel_iff :
    (inParallel s e left right).Spells w ↔ left.Spells w ∨ right.Spells w := by
  have hleft : left.IsPart (inParallel s e left right) [e] :=
    isPart_left_inParallel hl hr hlr hs
  have hright : right.IsPart (inParallel s e left right) [e] :=
    isPart_right_inParallel hl hr hlr hs
  have hend : ∀ t ∈ (inParallel s e left right).transitions, t.source ≠ e := fun t ht =>
    source_ne_accept_inParallel hl hr he hne ht
  constructor
  · intro hw
    cases hw with
    | nil => exact absurd rfl hne
    | @cons _ r _ l w ht hrest =>
      rcases eq_of_source_start_inParallel hl hr hs ht rfl with heq | heq
      · obtain ⟨-, rfl, rfl⟩ := Transition.mk.inj heq
        exact .inl (hleft.spells_of_path (fun hd => he (.inl hd)) hend hrest)
      · obtain ⟨-, rfl, rfl⟩ := Transition.mk.inj heq
        exact .inr (hright.spells_of_path (fun hd => he (.inr hd)) hend hrest)
  · have hlink : ∀ t, t = ⟨s, .epsilon, left.start⟩ ∨ t = ⟨left.accept, .epsilon, e⟩ ∨
        t = ⟨s, .epsilon, right.start⟩ ∨ t = ⟨right.accept, .epsilon, e⟩ →
        t ∈ (inParallel s e left right).transitions := fun t ht =>
      mem_transitions_inParallel.2 (.inr (.inr ht))
    rintro (hw | hw)
    · have hout := (hleft.path hw).append (path_link (hlink _ (.inr (.inl rfl))))
      rw [List.append_nil] at hout
      exact (path_link (hlink _ (.inl rfl))).append hout
    · have hout := (hright.path hw).append (path_link (hlink _ (.inr (.inr (.inr rfl)))))
      rw [List.append_nil] at hout
      exact (path_link (hlink _ (.inr (.inr (.inl rfl))))).append hout

end

/-! ### A repeated fragment -/

/-- The states of a repetition are those of its body and two new ones. -/
theorem mem_states_repeated :
    q ∈ (repeated s e body).states ↔ q ∈ body.states ∨ q = s ∨ q = e := by
  rw [repeated, DistinctList.mem_insertAll, List.mem_cons, List.mem_singleton]

/-- The transitions of a repetition are those of its body, and four that begin, skip, repeat and end
it. -/
theorem mem_transitions_repeated :
    t ∈ (repeated s e body).transitions ↔
      t ∈ body.transitions ∨ t = ⟨s, .epsilon, body.start⟩ ∨ t = ⟨s, .epsilon, e⟩ ∨
        t = ⟨body.accept, .epsilon, body.start⟩ ∨ t = ⟨body.accept, .epsilon, e⟩ := by
  rw [repeated, SortedSet.mem_insertAll]
  simp only [List.mem_cons, List.not_mem_nil, or_false]

/-- A repetition of a fragment that fits together fits together. -/
theorem Fits.repeated (hb : body.Fits) : (repeated s e body).Fits where
  start := mem_states_repeated.2 (.inr (.inl rfl))
  accept := mem_states_repeated.2 (.inr (.inr rfl))
  source t ht := by
    rw [mem_states_repeated]
    rcases mem_transitions_repeated.1 ht with ht | rfl | rfl | rfl | rfl
    · exact .inl (hb.source t ht)
    · exact .inr (.inl rfl)
    · exact .inr (.inl rfl)
    · exact .inl hb.accept
    · exact .inl hb.accept
  target t ht := by
    rw [mem_states_repeated]
    rcases mem_transitions_repeated.1 ht with ht | rfl | rfl | rfl | rfl
    · exact .inl (hb.target t ht)
    · exact .inl hb.start
    · exact .inr (.inr rfl)
    · exact .inl hb.start
    · exact .inr (.inr rfl)

section
variable (hb : body.Fits) (hs : ¬ s ∈ body.states) (he : ¬ e ∈ body.states) (hne : s ≠ e)

include hb hs in
/-- The body of a repetition is left to its own start, or to the new accepting state. -/
theorem isPart_repeated : body.IsPart (repeated s e body) [body.start, e] where
  fits := hb
  sub t ht := mem_transitions_repeated.2 (.inl ht)
  leave t ht hq := by
    rcases mem_transitions_repeated.1 ht with ht | rfl | rfl | rfl | rfl
    · exact .inl ht
    · exact absurd hq hs
    · exact absurd hq hs
    · exact .inr ⟨body.start, List.mem_cons_self .., rfl⟩
    · exact .inr ⟨e, List.mem_cons_of_mem _ (List.mem_singleton.2 rfl), rfl⟩

include hb he hne in
/-- No transition leaves the new accepting state. -/
theorem source_ne_accept_repeated (ht : t ∈ (repeated s e body).transitions) :
    t.source ≠ e := by
  intro hsource
  rcases mem_transitions_repeated.1 ht with ht | rfl | rfl | rfl | rfl
  · exact he (hsource ▸ hb.source t ht)
  · exact hne hsource
  · exact hne hsource
  · exact he (hsource ▸ hb.accept)
  · exact he (hsource ▸ hb.accept)

include hb hs in
/-- The transitions from the new start lead into the part or past it. -/
theorem eq_of_source_start_repeated (ht : t ∈ (repeated s e body).transitions)
    (hsource : t.source = s) : t = ⟨s, .epsilon, body.start⟩ ∨ t = ⟨s, .epsilon, e⟩ := by
  subst hsource
  rcases mem_transitions_repeated.1 ht with ht | ht | ht | ht | ht
  · exact absurd (hb.source t ht) hs
  · exact .inl ht
  · exact .inr ht
  · rw [ht] at hs
    exact absurd hb.accept hs
  · rw [ht] at hs
    exact absurd hb.accept hs

include hb hs he hne in
/-- What a repeated fragment spells is made up of words of the inner one. -/
theorem matches_star_of_spells_repeated {r : Regex} (hbody : ∀ w, body.Spells w → r.Matches w)
    (hw : (repeated s e body).Spells w) : r.star.Matches w := by
  have hpart : body.IsPart (repeated s e body) [body.start, e] := isPart_repeated hb hs
  have hend : ∀ t ∈ (repeated s e body).transitions, t.source ≠ e := fun t ht =>
    source_ne_accept_repeated hb he hne ht
  have hexit : ∀ q ∈ [body.start, e],
      (∀ v, (repeated s e body).Path q v e → r.star.Matches v) ∨
        q = body.start ∧ ∀ u v, body.Spells u → r.star.Matches v → r.star.Matches (u ++ v) := by
    intro q hq
    rcases List.mem_cons.1 hq with rfl | hq
    · exact .inr ⟨rfl, fun u v hu hv => .starCons (hbody u hu) hv⟩
    · obtain rfl := List.mem_singleton.1 hq
      refine .inl fun v hv => ?_
      rw [hv.eq_nil_of_end hend]
      exact .starNil
  cases hw with
  | nil => exact absurd rfl hne
  | @cons _ q _ l w ht hrest =>
    rcases eq_of_source_start_repeated hb hs ht rfl with heq | heq
    · obtain ⟨-, rfl, rfl⟩ := Transition.mk.inj heq
      obtain ⟨u, v, rfl, hu, hv⟩ := hpart.through (fun hd => absurd hd he) hexit hrest hb.start
      show r.star.Matches (u ++ v)
      exact .starCons (hbody u hu) hv
    · obtain ⟨-, rfl, rfl⟩ := Transition.mk.inj heq
      rw [hrest.eq_nil_of_end hend]
      exact .starNil

include hb hs in
/-- Words of the inner fragment lead through the repeated one, also from the accepting state of the
inner one on. -/
theorem path_repeated_of_matches_star {r : Regex} (hbody : ∀ w, r.Matches w → body.Spells w)
    (hw : r.star.Matches w) :
    (repeated s e body).Path s w e ∧ (repeated s e body).Path body.accept w e := by
  have hpart : body.IsPart (repeated s e body) [body.start, e] := isPart_repeated hb hs
  have hlink : ∀ t, t = ⟨s, .epsilon, body.start⟩ ∨ t = ⟨s, .epsilon, e⟩ ∨
      t = ⟨body.accept, .epsilon, body.start⟩ ∨ t = ⟨body.accept, .epsilon, e⟩ →
      t ∈ (repeated s e body).transitions := fun t ht => mem_transitions_repeated.2 (.inr ht)
  refine hw.star_induction (P := fun w => (repeated s e body).Path s w e ∧
    (repeated s e body).Path body.accept w e) ⟨?_, ?_⟩ fun u v hu hv => ?_
  · exact path_link (hlink _ (.inr (.inl rfl)))
  · exact path_link (hlink _ (.inr (.inr (.inr rfl))))
  · have hinside := (hpart.path (hbody u hu)).append hv.2
    exact ⟨(path_link (hlink _ (.inl rfl))).append hinside,
      (path_link (hlink _ (.inr (.inr (.inl rfl))))).append hinside⟩

include hb hs he hne in
/-- **A repeated fragment** spells the words of a star if the fragment spells those of the inner
expression. -/
theorem spells_repeated_iff {r : Regex} (hbody : ∀ w, body.Spells w ↔ r.Matches w) :
    (repeated s e body).Spells w ↔ r.star.Matches w := by
  constructor
  · exact matches_star_of_spells_repeated hb hs he hne fun w => (hbody w).1
  · exact fun hw => (path_repeated_of_matches_star hb hs (fun w => (hbody w).2) hw).1

end

end Fragment
end LanguageForms
