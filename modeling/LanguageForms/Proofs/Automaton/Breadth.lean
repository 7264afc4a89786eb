/-
# The order of the discovery

The queue of the discovery comes to its end (`exhausts_explore`): what is left of it
then are events, and no fuel is mentioned any more (`Exhausts`).

The subsets are found breadth first.  A `Ranking` gives every known subset a word that
leads to it, so that the words come in the order of all words.  The way through the
symbols from one subset appends them to its word, and since the words in the queue are
in order, whatever they are extended by comes after all words that are known
(`exists_ranking_eventsFrom`, `Exhausts.exists_ranking`).

In the end every subset has the first of the words that lead to it: for the extension
of a first word by a symbol there is a subset with a word that is not later
(`Covers.exists_atMost`).  So the subsets come in the order of the words that lead to
them (`pairwise_earlier_found`).
-/
import LanguageForms.Proofs.Automaton.Discovery
import LanguageForms.Proofs.Words

namespace LanguageForms
namespace Automaton
namespace Subset

open Words (Precedes AtMost Earlier)

variable {a : Automaton} {known queue : List Subset} {source s t : Subset} {es : List Event}
  {cs u w : List Char}

/-! ### The end of the queue -/

/-- The subsets in the queue, and those that are found meanwhile, are treated one after the other
until none is left, and these are the events. -/
inductive Exhausts (a : Automaton) : List Subset → List Subset → List Event → Prop where
  | nil (known : List Subset) : Exhausts a known [] []
  | cons {known queue : List Subset} {s : Subset} {es : List Event} :
      Exhausts a (known ++ (eventsFrom a s a.alphabet.toList known).2)
        (queue ++ (eventsFrom a s a.alphabet.toList known).2) es →
      Exhausts a known (s :: queue) ((eventsFrom a s a.alphabet.toList known).1 ++ es)

/-- **The queue comes to its end** before the fuel does. -/
theorem exhausts_explore (ha : a.WellFormed) {n : Nat} (h : Table a known)
    (hqueue : ∀ s ∈ queue, s ∈ known)
    (hfuel : Nat.pow 2 a.size + queue.length ≤ n + known.length) :
    Exhausts a known queue (explore a n known queue) := by
  induction n generalizing known queue with
  | zero =>
    have hlt := h.length_lt ha
    omega
  | succ n ih =>
    cases queue with
    | nil => exact .nil known
    | cons s queue =>
      have hs := h.reachable s (hqueue s (List.mem_cons_self ..))
      have hfound : Table a (known ++ (eventsFrom a s a.alphabet.toList known).2) :=
        table_eventsFrom h hs fun _ hc => hc
      refine .cons (ih hfound (queue_subset hqueue) ?_)
      simp only [List.length_append, List.length_cons] at hfuel ⊢
      omega

/-- The events after the first one are those of a queue that has come to its end. -/
theorem exhausts_events (ha : a.WellFormed) :
    Exhausts a [first a] [first a] (explore a (Nat.pow 2 a.size) [first a] [first a]) :=
  exhausts_explore ha (table_first a) (fun _ hs => hs) (Nat.le_refl _)

/-! ### Subsets with words -/

/-- Subsets with words that lead to them, in the order of the words. -/
structure Ranking (a : Automaton) (ranked : List (Subset × List Char)) : Prop where
  leads : ∀ r ∈ ranked, a.Leads r.2 r.1.members
  increasing : ranked.Pairwise fun r r' => Precedes r.2 r'.2

/-- Where a symbol leads to from a treated subset, there is a subset whose word is not later than
the word of the treated one with that symbol. -/
def Covers (a : Automaton) (cs : List Char) (ranked treated : List (Subset × List Char)) : Prop :=
  ∀ r ∈ treated, ∀ c ∈ cs, a.advance r.1.members c ≠ .empty →
    ∃ r' ∈ ranked, r'.1.members = a.advance r.1.members c ∧ AtMost r'.2 (r.2 ++ [c])

variable {ranked more treated pending : List (Subset × List Char)} {c : Char}

/-- A subset is added behind all that are known with a word behind all of theirs. -/
theorem Ranking.concat (h : Ranking a ranked) (hleads : a.Leads w s.members)
    (hlast : ∀ r ∈ ranked, Precedes r.2 w) : Ranking a (ranked ++ [(s, w)]) where
  leads r hr := by
    rcases List.mem_append.1 hr with hr | hr
    · exact h.leads r hr
    · rw [List.mem_singleton.1 hr]
      exact hleads
  increasing := by
    refine List.pairwise_append.2 ⟨h.increasing, List.pairwise_singleton .., fun r hr r' hr' => ?_⟩
    rw [List.mem_singleton.1 hr']
    exact hlast r hr

/-- What is covered for two lists of treated subsets is covered for both together. -/
theorem Covers.append {treated' : List (Subset × List Char)} (h : Covers a cs ranked treated)
    (h' : Covers a cs ranked treated') : Covers a cs ranked (treated ++ treated') := by
  intro r hr
  rcases List.mem_append.1 hr with hr | hr
  · exact h r hr
  · exact h' r hr

/-- More ranked subsets cover at least as much. -/
theorem Covers.mono {ranked' : List (Subset × List Char)} (h : Covers a cs ranked treated)
    (hsub : ∀ r ∈ ranked, r ∈ ranked') : Covers a cs ranked' treated := by
  intro r hr c hc hne
  obtain ⟨r', hr', hrest⟩ := h r hr c hc hne
  exact ⟨r', hsub r' hr', hrest⟩

/-- One more symbol leads nowhere or to a subset that is known. -/
theorem Covers.cons_symbol (h : Covers a cs ranked [(source, u)])
    (hc : a.advance source.members c ≠ .empty →
      ∃ r ∈ ranked, r.1.members = a.advance source.members c ∧ AtMost r.2 (u ++ [c])) :
    Covers a (c :: cs) ranked [(source, u)] := by
  intro r hr d hd hne
  rcases List.mem_cons.1 hd with rfl | hd
  · obtain rfl := List.mem_singleton.1 hr
    exact hc hne
  · exact h r hr d hd hne

/-- **On the way through the symbols** from one subset the new ones get its word with the symbol
appended.  If these words come after all that are known, the order is kept. -/
theorem exists_ranking_eventsFrom (h : Ranking a ranked) (hknown : ranked.map Prod.fst = known)
    (hsource : a.Leads u source.members) (hcs : cs.Pairwise fun c d => before c d = true)
    (hsub : ∀ c ∈ cs, c ∈ a.alphabet) (hlast : ∀ r ∈ ranked, ∀ c ∈ cs, Precedes r.2 (u ++ [c])) :
    ∃ more, more.map Prod.fst = (eventsFrom a source cs known).2 ∧ Ranking a (ranked ++ more) ∧
      (∀ r ∈ more, ∃ c, r.2 = u ++ [c]) ∧ Covers a cs (ranked ++ more) [(source, u)] := by
  revert ranked
  fun_induction eventsFrom a source cs known with
  | case1 known =>
    intro ranked h _ _
    refine ⟨[], rfl, ?_, fun _ hr => absurd hr List.not_mem_nil,
      fun _ _ _ hc => absurd hc List.not_mem_nil⟩
    rwa [List.append_nil]
  | case2 c cs known direct target hempty ih =>
    intro ranked h hknown hlast
    obtain ⟨more, hmore, hrank, hwords, hcovers⟩ := ih (List.pairwise_cons.1 hcs).2
      (fun d hd => hsub d (List.mem_cons_of_mem _ hd)) h hknown
      fun r hr d hd => hlast r hr d (List.mem_cons_of_mem _ hd)
    refine ⟨more, hmore, hrank, hwords, hcovers.cons_symbol fun hne => ?_⟩
    exact absurd (SortedSet.isEmpty_iff.1 hempty) hne
  | case3 c cs known direct target hempty s hfind rest =>
    rename_i ih
    intro ranked h hknown hlast
    obtain ⟨more, hmore, hrank, hwords, hcovers⟩ := ih (List.pairwise_cons.1 hcs).2
      (fun d hd => hsub d (List.mem_cons_of_mem _ hd)) h hknown
      fun r hr d hd => hlast r hr d (List.mem_cons_of_mem _ hd)
    refine ⟨more, hmore, hrank, hwords, hcovers.cons_symbol fun _ => ?_⟩
    -- the set is known, so its word comes before all that could be new
    have hs : s ∈ ranked.map Prod.fst := hknown ▸ List.mem_of_find?_eq_some hfind
    obtain ⟨r, hr, rfl⟩ := List.mem_map.1 hs
    have htest := List.find?_some hfind
    have hmembers : r.1.members = target := of_decide_eq_true htest
    exact ⟨r, List.mem_append_left _ hr, hmembers, .inr (hlast r hr c (List.mem_cons_self ..))⟩
  | case4 c cs known direct target hempty hfind s rest =>
    rename_i ih
    intro ranked h hknown hlast
    have hne : a.advance source.members c ≠ .empty := fun heq =>
      hempty (SortedSet.isEmpty_iff.2 heq)
    have hleads : a.Leads (u ++ [c]) s.members :=
      .snoc hsource (hsub c (List.mem_cons_self ..)) hne
    have hnew : Ranking a (ranked ++ [(s, u ++ [c])]) :=
      h.concat hleads fun r hr => hlast r hr c (List.mem_cons_self ..)
    obtain ⟨hfirst, hcs⟩ := List.pairwise_cons.1 hcs
    have hlast' : ∀ r ∈ ranked ++ [(s, u ++ [c])], ∀ d ∈ cs, Precedes r.2 (u ++ [d]) := by
      intro r hr d hd
      rcases List.mem_append.1 hr with hr | hr
      · exact hlast r hr d (List.mem_cons_of_mem _ hd)
      · rw [List.mem_singleton.1 hr]
        exact Words.precedes_concat_of_before (hfirst d hd)
    have hknown' : (ranked ++ [(s, u ++ [c])]).map Prod.fst = known ++ [s] := by simp [hknown]
    obtain ⟨more, hmore, hrank, hwords, hcovers⟩ := ih hcs
      (fun d hd => hsub d (List.mem_cons_of_mem _ hd)) hnew hknown' hlast'
    rw [List.append_assoc] at hrank hcovers
    refine ⟨(s, u ++ [c]) :: more, congrArg (s :: ·) hmore, hrank, ?_,
      hcovers.cons_symbol fun _ => ?_⟩
    · exact List.forall_mem_cons.2 ⟨⟨c, rfl⟩, hwords⟩
    · exact ⟨_, List.mem_append_right _ (List.mem_cons_self ..), rfl, .inl rfl⟩

/-- **On the way through the queue** the order is kept, if the words in the queue come, with a
symbol appended, after all that are known. -/
theorem Exhausts.exists_ranking (h : Exhausts a known queue es)
    (hknown : (treated ++ pending).map Prod.fst = known) (hqueue : pending.map Prod.fst = queue)
    (hrank : Ranking a (treated ++ pending))
    (hlast : ∀ r ∈ treated ++ pending, ∀ p ∈ pending, ∀ c, Precedes r.2 (p.2 ++ [c])) :
    ∃ more, more.map Prod.fst = created es ∧ Ranking a (treated ++ pending ++ more) ∧
      Covers a a.alphabet.toList (treated ++ pending ++ more) (pending ++ more) := by
  induction h generalizing treated pending with
  | nil known =>
    obtain rfl := List.map_eq_nil_iff.1 hqueue
    refine ⟨[], rfl, ?_, fun _ hr => absurd hr List.not_mem_nil⟩
    rwa [List.append_nil]
  | @cons known queue s es _ ih =>
    obtain ⟨⟨s', u⟩, pending, rfl, rfl, rfl⟩ := List.map_eq_cons_iff.1 hqueue
    have hmem : (s', u) ∈ treated ++ (s', u) :: pending :=
      List.mem_append_right _ (List.mem_cons_self ..)
    obtain ⟨found, hfound, hrank', hwords, hcovers⟩ := exists_ranking_eventsFrom hrank hknown
      (hrank.leads _ hmem) a.alphabet.sorted (fun _ hc => hc)
      fun r hr c _ => hlast r hr _ (List.mem_cons_self ..) c
    -- the treated subset leaves the queue, and what it has led to is appended
    have hsplit : treated ++ (s', u) :: pending ++ found =
        (treated ++ [(s', u)]) ++ (pending ++ found) := by simp
    rw [hsplit] at hrank' hcovers
    have hlater : ∀ p ∈ pending ++ found, Precedes u p.2 := fun p hp =>
      (List.pairwise_append.1 hrank'.increasing).2.2 (s', u)
        (List.mem_append_right _ (List.mem_singleton.2 rfl)) p hp
    have hlast' : ∀ r ∈ (treated ++ [(s', u)]) ++ (pending ++ found), ∀ p ∈ pending ++ found,
        ∀ c, Precedes r.2 (p.2 ++ [c]) := by
      intro r hr p hp c
      have hnext : Precedes (u ++ [c]) (p.2 ++ [c]) := (hlater p hp).concat
      rw [← hsplit] at hr
      rcases List.mem_append.1 hr with hr | hr
      · exact (hlast r hr _ (List.mem_cons_self ..) c).trans hnext
      · obtain ⟨d, hd⟩ := hwords r hr
        rw [hd]
        exact (hlater p hp).concat
    have hknown' : (treated ++ [(s', u)] ++ (pending ++ found)).map Prod.fst =
        known ++ (eventsFrom a s' a.alphabet.toList known).2 := by
      rw [← hsplit, List.map_append, hknown, hfound]
    have hqueue' : (pending ++ found).map Prod.fst =
        pending.map Prod.fst ++ (eventsFrom a s' a.alphabet.toList known).2 := by
      rw [List.map_append, hfound]
    obtain ⟨more, hmore, hrankMore, hcoversMore⟩ := ih hknown' hqueue' hrank' hlast'
    have hall : (treated ++ [(s', u)]) ++ (pending ++ found) ++ more =
        treated ++ (s', u) :: pending ++ (found ++ more) := by simp
    rw [hall] at hrankMore hcoversMore
    refine ⟨found ++ more, ?_, hrankMore, ?_⟩
    · rw [List.map_append, hfound, hmore, created_append, created_eventsFrom]
    · have hhere : Covers a a.alphabet.toList (treated ++ (s', u) :: pending ++ (found ++ more))
          [(s', u)] := hcovers.mono fun r hr => by
        rw [← hall]
        exact List.mem_append_left _ hr
      have hsteps := hhere.append hcoversMore
      simpa using hsteps

/-! ### First words -/

/-- **All that is found** has a ranking, and it covers itself. -/
theorem exists_ranking_found (ha : a.WellFormed) :
    ∃ ranked, ranked.map Prod.fst = found a ∧ (first a, []) ∈ ranked ∧ Ranking a ranked ∧
      Covers a a.alphabet.toList ranked ranked := by
  have hstart : Ranking a [(first a, [])] :=
    ⟨fun r hr => by rw [List.mem_singleton.1 hr]; exact .nil, List.pairwise_singleton ..⟩
  have hlast : ∀ r ∈ [(first a, ([] : List Char))], ∀ p ∈ [(first a, ([] : List Char))], ∀ c,
      Precedes r.2 (p.2 ++ [c]) := by
    intro r hr p hp c
    rw [List.mem_singleton.1 hr, List.mem_singleton.1 hp]
    exact Words.precedes_append (List.cons_ne_nil _ _)
  have hknown : ([] ++ [(first a, ([] : List Char))]).map Prod.fst = [first a] := rfl
  obtain ⟨more, hmore, hrank, hcovers⟩ :=
    (exhausts_events ha).exists_ranking hknown rfl hstart hlast
  refine ⟨(first a, []) :: more, ?_, List.mem_cons_self .., hrank, hcovers⟩
  rw [List.map_cons, hmore, found_eq]
  rfl

/-- Among subsets that cover themselves there is one for every word that leads anywhere, with a
word that is not later. -/
theorem Covers.exists_atMost (h : Covers a a.alphabet.toList ranked ranked)
    (hfirst : (first a, []) ∈ ranked) {members : SortedSet State} (hw : a.Leads w members) :
    ∃ r ∈ ranked, r.1.members = members ∧ AtMost r.2 w := by
  induction hw with
  | nil => exact ⟨_, hfirst, rfl, .inl rfl⟩
  | @snoc w members c _ hc hne ih =>
    obtain ⟨r, hr, rfl, hle⟩ := ih
    obtain ⟨r', hr', hmembers, hle'⟩ := h r hr c hc hne
    exact ⟨r', hr', hmembers, hle'.trans hle.concat⟩

/-- What is found are exactly the sets that the automaton can be in. -/
theorem mem_map_members_found (ha : a.WellFormed) {members : SortedSet State} :
    members ∈ (found a).map Subset.members ↔ a.IsReachable members := by
  constructor
  · intro h
    obtain ⟨s, hs, rfl⟩ := List.mem_map.1 h
    exact (table_found a).reachable s hs
  · rintro ⟨w, hw⟩
    obtain ⟨ranked, hfound, hfirst, -, hcovers⟩ := exists_ranking_found ha
    obtain ⟨r, hr, rfl, -⟩ := hcovers.exists_atMost hfirst hw
    exact List.mem_map_of_mem (hfound ▸ List.mem_map_of_mem hr)

/-- **The subsets are found in the order of the words that lead to them.** -/
theorem pairwise_earlier_found (ha : a.WellFormed) :
    ((found a).map Subset.members).Pairwise fun s t => Earlier (a.Leads · s) (a.Leads · t) := by
  obtain ⟨ranked, hfound, hfirst, hrank, hcovers⟩ := exists_ranking_found ha
  have hnodup : (ranked.map fun r => r.1.members).Nodup := by
    have hmembers := (table_found a).members
    rwa [← hfound, List.map_map] at hmembers
  rw [← hfound, List.map_map, List.pairwise_map]
  refine hrank.increasing.imp_of_mem fun {r r'} hr hr' hlt => ⟨r.2, hrank.leads r hr, ?_⟩
  intro w hw
  -- the word of the later subset is the first one that leads to it
  obtain ⟨r'', hr'', hmembers, hle⟩ := hcovers.exists_atMost hfirst hw
  obtain rfl := List.inj_on_of_nodup_map hnodup hr'' hr' hmembers
  exact hlt.trans_atMost hle

end Subset
end Automaton
end LanguageForms
