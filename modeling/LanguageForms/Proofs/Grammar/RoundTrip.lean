/-
# Reading the text of a grammar

The text of a grammar has a rule for every head (`rulesOf_text`), and the rules are
read one by one.  So the text is read again exactly if no body has an arrow of two
characters (`exists_read_text_iff`), and what is read has the productions of the
grammar, regrouped by their heads (`isRegrouped_of_read`).

A grammar that was read from some text is collected from its productions
(`collects_of_read`), and the sorts of its symbols can be seen (`isLegible_of_read`).
So it comes back with its start and its words (`read_text_regroups`).
-/
import LanguageForms.Grammar.Derivation
import LanguageForms.Proofs.Conversion.Refusal
import LanguageForms.Proofs.Grammar.Grouping
import LanguageForms.Proofs.Grammar.Rules

namespace LanguageForms
namespace Grammar

variable {g k : Grammar} {p : Production} {ps : List Production} {c head : Char}

/-! ### Grammars of productions -/

/-- The symbols of some productions are their heads and the symbols of their bodies. -/
theorem mem_symbolsOf : c ∈ symbolsOf ps ↔ ∃ p ∈ ps, c = p.head ∨ c ∈ p.body := by
  rw [symbolsOf, ← DistinctList.mem_iff, DistinctList.mem_ofList, List.mem_flatMap]
  simp only [List.mem_cons]

/-- The grammar has the productions, begins with the head of the first one, and its symbols are
those that occur, sorted by their case. -/
structure Collects (k : Grammar) (ps : List Production) : Prop where
  productions : k.productions = ps
  start : ps.head?.map (·.head) = some k.start
  nonterminals : ∀ c, c ∈ k.nonterminals ↔ k.Occurs c ∧ isUppercase c = true
  terminals : ∀ c, c ∈ k.terminals ↔ k.Occurs c ∧ isUppercase c = false

/-- A grammar made from productions has these and their symbols. -/
theorem collects_of_ofProductions (h : ofProductions ps = .ok k) : k.Collects ps := by
  cases ps with
  | nil => cases h
  | cons p ps =>
    dsimp only [ofProductions, ofParts] at h
    split at h
    · cases h
      refine ⟨rfl, rfl, fun c => ?_, fun c => ?_⟩
      · rw [DistinctList.mem_ofList, List.mem_filter, mem_symbolsOf]
        rfl
      · rw [DistinctList.mem_ofList, List.mem_filter, mem_symbolsOf, Bool.not_eq_true']
        rfl
    · cases h

/-- Productions with uppercase heads make a grammar, unless the marker for the bottom of stacks is
among their symbols. -/
theorem exists_ofProductions (hne : ps ≠ []) (hheads : ∀ p ∈ ps, isUppercase p.head = true)
    (hbodies : ∀ p ∈ ps, endMarker ∉ p.body) : ∃ k, ofProductions ps = .ok k := by
  obtain ⟨p, ps, rfl⟩ := List.exists_cons_of_ne_nil hne
  have hmarker : endMarker ∉ symbolsOf (p :: ps) := by
    rw [mem_symbolsOf]
    rintro ⟨q, hq, hhead | hbody⟩
    · exact ne_of_isUppercase (hheads q hq) rfl hhead.symm
    · exact hbodies q hq hbody
  have hhead : ∀ q ∈ p :: ps, q.head ∈ (symbolsOf (p :: ps)).filter isUppercase := fun q hq =>
    List.mem_filter.2 ⟨mem_symbolsOf.2 ⟨q, hq, .inl rfl⟩, hheads q hq⟩
  let k : Grammar := ⟨.ofList ((symbolsOf (p :: ps)).filter isUppercase),
    .ofList ((symbolsOf (p :: ps)).filter fun c => !isUppercase c), p :: ps, p.head⟩
  have hk : k.WellFormed :=
    { productions := List.cons_ne_nil p ps
      nonterminals := fun hmem =>
        hmarker (List.mem_of_mem_filter (DistinctList.mem_ofList.1 hmem))
      terminals := fun hmem => hmarker (List.mem_of_mem_filter (DistinctList.mem_ofList.1 hmem))
      disjoint := by
        intro c hnonterminal hterminal
        have hupper := (List.mem_filter.1 (DistinctList.mem_ofList.1 hnonterminal)).2
        have hlower := (List.mem_filter.1 (DistinctList.mem_ofList.1 hterminal)).2
        simp [hupper] at hlower
      start := DistinctList.mem_ofList.2 (hhead p List.mem_cons_self)
      head := fun q hq => DistinctList.mem_ofList.2 (hhead q hq)
      body := by
        intro q hq c hc
        have hsymbol : c ∈ symbolsOf (p :: ps) := mem_symbolsOf.2 ⟨q, hq, .inr hc⟩
        rw [DistinctList.mem_ofList, DistinctList.mem_ofList, List.mem_filter, List.mem_filter]
        cases hcase : isUppercase c with
        | true => exact .inl ⟨hsymbol, rfl⟩
        | false => exact .inr ⟨hsymbol, rfl⟩ }
  refine ⟨k, ?_⟩
  show ofParts _ _ _ _ = _
  have hnone : k.defect? = none := defect?_eq_none_iff.2 hk
  dsimp only [ofParts]
  rw [hnone]

/-! ### The text of a grammar -/

section Text

variable (hg : g.IsLegible) (h : g.WellFormed)
include hg h

/-- The productions of a grammar show their sorts. -/
theorem IsLegible.production (hp : p ∈ g.productions) : p.IsLegible := by
  refine ⟨hg.nonterminals _ (h.head p hp), fun c hc => ?_⟩
  rcases h.body p hp c hc with hc | hc
  · exact isVisible_of_isUppercase (hg.nonterminals c hc)
  · exact (isPlain_eq_true_iff.1 (hg.terminals c hc)).2

/-- The productions of a head of a legible grammar are legible. -/
theorem IsLegible.productionsOf : ∀ p ∈ g.productionsOf head, p.IsLegible := fun _ hp =>
  hg.production h (mem_productionsOf.1 hp).1

/-- The heads of a legible grammar are capital letters. -/
theorem IsLegible.heads (hhead : head ∈ g.heads) : isUppercase head = true := by
  obtain ⟨p, hp, rfl⟩ := mem_heads.1 hhead
  exact hg.nonterminals _ (h.head p hp)

/-- **The rules of the text** are those of the heads. -/
theorem rulesOf_text :
    rulesOf g.text.toList = g.heads.map fun head => ruleChars head (g.productionsOf head) := by
  have hne : g.heads ≠ [] := by
    obtain ⟨p, hp⟩ := List.exists_mem_of_ne_nil _ h.productions
    exact List.ne_nil_of_mem (head_mem_heads hp)
  have htext : g.text.toList =
      ['\n'].intercalate (g.heads.map fun head => ruleChars head (g.productionsOf head)) := by
    have hline : ("\n").toList = ['\n'] := rfl
    rw [Grammar.text, Text.toList_separated, hline, List.map_map]
    simp only [Function.comp_def, toList_ruleText]
  have hends : ∀ rule ∈ g.heads.map fun head => ruleChars head (g.productionsOf head),
      ∀ c ∈ rule, (c == '\n' || c == ';') = false := by
    intro rule hrule
    obtain ⟨head, hhead, rfl⟩ := List.mem_map.1 hrule
    exact ends_ruleChars (hg.heads h hhead) (hg.productionsOf h)
  have htrim : (g.heads.map fun head => ruleChars head (g.productionsOf head)).map Text.trim =
      g.heads.map fun head => ruleChars head (g.productionsOf head) := by
    rw [List.map_map]
    refine List.map_congr_left fun head hhead => ?_
    exact trim_ruleChars (productionsOf_ne_nil hhead) (hg.heads h hhead) (hg.productionsOf h)
  rw [rulesOf, htext, Text.splitWhere_intercalate rfl (by simpa using hne) hends, htrim,
    List.filter_eq_self]
  intro rule hrule
  obtain ⟨head, -, rfl⟩ := List.mem_map.1 hrule
  rfl

/-- Without an arrow in a body, the productions are read head by head. -/
theorem read_text_eq (harrow : ¬ g.HasArrow) : read g.text = ofProductions g.grouped := by
  have hrule : ∀ head ∈ g.heads,
      readRule (ruleChars head (g.productionsOf head)) = .ok (g.productionsOf head) := by
    intro head hhead
    refine readRule_ruleChars (hg.heads h hhead) (productionsOf_ne_nil hhead) (hg.productionsOf h)
      (fun p hp => (mem_productionsOf.1 hp).2) ?_
    rintro ⟨p, hp, hinfix⟩
    exact harrow ⟨p, (mem_productionsOf.1 hp).1, hinfix⟩
  rw [read, readChars, rulesOf_text hg h, readRules_map hrule]
  rfl

/-- With an arrow in a body, the rule of its head is refused. -/
theorem not_hasArrow_of_read (hk : read g.text = .ok k) : ¬ g.HasArrow := by
  rintro ⟨p, hp, hinfix⟩
  rw [read, readChars, rulesOf_text hg h] at hk
  split at hk
  · cases hk
  · next ps hps =>
    have hrule := (exists_of_readRules hps).1 _ (List.mem_map_of_mem (head_mem_heads hp))
    obtain ⟨qs, hqs⟩ := hrule
    rw [readRule_ruleChars_of_arrow (hg.heads h (head_mem_heads hp))
      ⟨p, mem_productionsOf.2 ⟨hp, rfl⟩, hinfix⟩] at hqs
    cases hqs

/-- **The text is read again** exactly if no body has an arrow of two characters. -/
theorem exists_read_text_iff : (∃ k, read g.text = .ok k) ↔ ¬ g.HasArrow := by
  constructor
  · rintro ⟨k, hk⟩
    exact not_hasArrow_of_read hg h hk
  · intro harrow
    rw [read_text_eq hg h harrow]
    have hperm := grouped_perm g
    have hmem : ∀ p ∈ g.grouped, p ∈ g.productions := fun p hp => hperm.mem_iff.1 hp
    refine exists_ofProductions ?_ ?_ ?_
    · intro hnil
      rw [hnil] at hperm
      exact h.productions hperm.symm.eq_nil
    · exact fun p hp => hg.nonterminals _ (h.head p (hmem p hp))
    · intro p hp hmarker
      rcases h.body p (hmem p hp) _ hmarker with hc | hc
      · exact h.nonterminals hc
      · exact h.terminals hc

/-- **What is read is the grammar with its productions head by head.** -/
theorem isRegrouped_of_read (hk : read g.text = .ok k) : g.IsRegrouped k := by
  have harrow := not_hasArrow_of_read hg h hk
  rw [read_text_eq hg h harrow] at hk
  have hcollects := collects_of_ofProductions hk
  have hproductions := hcollects.productions
  have hperm : k.productions.Perm g.productions := hproductions ▸ grouped_perm g
  have hoccurs : ∀ c, k.Occurs c ↔ g.Occurs c := fun c =>
    exists_congr fun p => and_congr_left fun _ => hperm.mem_iff
  have hsort : ∀ c, g.Occurs c → c ∈ g.nonterminals ∨ c ∈ g.terminals := by
    rintro c ⟨p, hp, rfl | hc⟩
    · exact .inl (h.head p hp)
    · exact h.body p hp c hc
  have hlower : ∀ c ∈ g.terminals, isUppercase c = false := fun c hc =>
    (isPlain_eq_true_iff.1 (hg.terminals c hc)).1
  exact
    { perm := hperm
      heads := hproductions ▸ pairwise_grouped g
      alternatives := productionsOf_eq_of_grouped hproductions
      start := by
        rw [← head?_grouped]
        exact hcollects.start
      nonterminals := by
        intro c
        rw [hcollects.nonterminals, hoccurs, and_comm]
        refine and_congr_left fun hc => ⟨fun hupper => ?_, hg.nonterminals c⟩
        refine (hsort c hc).resolve_right fun hmem => ?_
        exact ne_of_isUppercase hupper (hlower c hmem) rfl
      terminals := by
        intro c
        rw [hcollects.terminals, hoccurs, and_comm]
        refine and_congr_left fun hc => ⟨fun hcase => ?_, hlower c⟩
        refine (hsort c hc).resolve_left fun hmem => ?_
        exact ne_of_isUppercase (hg.nonterminals c hmem) hcase rfl
      text := text_eq_of_grouped hproductions }

end Text

/-! ### Grammars that are read -/

section Read

variable {text : String} (h : read text = .ok g)
include h

/-- A grammar that is read is collected from the productions of the rules. -/
theorem collects_of_read :
    ∃ ps, readRules (rulesOf text.toList) = .ok ps ∧ g.Collects ps := by
  rw [read, readChars] at h
  split at h
  · cases h
  · next ps hps => exact ⟨ps, hps, collects_of_ofProductions h⟩

/-- **The sorts of the symbols can be seen** in every grammar that is read. -/
theorem isLegible_of_read : g.IsLegible := by
  obtain ⟨ps, hps, hcollects⟩ := collects_of_read h
  refine ⟨fun c hc => ((hcollects.nonterminals c).1 hc).2, fun c hc => ?_⟩
  obtain ⟨⟨p, hp, hplace⟩, hlower⟩ := (hcollects.terminals c).1 hc
  have hbody : c ∈ p.body := by
    refine hplace.resolve_left fun hhead => ?_
    have hmem := (wellFormed_of_read h).head p hp
    exact ne_of_isUppercase ((hcollects.nonterminals _).1 hmem).2 hlower hhead.symm
  rw [hcollects.productions] at hp
  obtain ⟨rule, hrule, qs, hqs, hpqs⟩ := (exists_of_readRules hps).2 p hp
  have hsemicolon := semicolon_notMem_of_mem_rulesOf hrule
  exact isPlain_eq_true_iff.2 ⟨hlower, isVisible_of_readRule hqs hsemicolon hpqs hbody⟩

/-- **A grammar that is read comes back** with its start and its words. -/
theorem generates_iff_of_read (hk : read g.text = .ok k) :
    k.start = g.start ∧ ∀ w, k.Generates w ↔ g.Generates w := by
  have hregrouped := isRegrouped_of_read (isLegible_of_read h) (wellFormed_of_read h) hk
  obtain ⟨ps, -, hcollects⟩ := collects_of_read h
  have hfirst := hregrouped.start
  rw [hcollects.productions, hcollects.start] at hfirst
  have hstart : k.start = g.start := (Option.some.inj hfirst).symm
  have hterminals : ∀ c, c ∈ k.terminals ↔ c ∈ g.terminals := fun c => by
    rw [hregrouped.terminals]
    exact and_iff_left_of_imp fun hc => ((hcollects.terminals c).1 hc).1
  exact ⟨hstart, fun w => generates_congr hstart (fun p => hregrouped.perm.mem_iff) hterminals⟩

end Read

/-- **The text of a grammar is read again** exactly if no body has an arrow of two characters, and
then it gives the grammar with its productions head by head.  A grammar that is read from a text
comes back with its start and its words. -/
theorem read_text_regroups :
    (∀ g : Grammar, g.defect? = none → g.IsLegible →
      ((∃ k, read g.text = .ok k) ↔ ¬ g.HasArrow) ∧
        ∀ k, read g.text = .ok k → g.IsRegrouped k) ∧
    ∀ (text : String) (g : Grammar), read text = .ok g →
      ((∃ k, read g.text = .ok k) ↔ ¬ g.HasArrow) ∧
        ∀ k, read g.text = .ok k → k.start = g.start ∧ ∀ w, k.Generates w ↔ g.Generates w := by
  constructor
  · intro g hdefect hg
    have h := defect?_eq_none_iff.1 hdefect
    exact ⟨exists_read_text_iff hg h, fun k hk => isRegrouped_of_read hg h hk⟩
  · intro text g hread
    have hiff := exists_read_text_iff (isLegible_of_read hread) (wellFormed_of_read hread)
    exact ⟨hiff, fun k hk => generates_iff_of_read hread hk⟩

/-- Two heads by turns, with the parts of an arrow in different bodies, a symbol that is not used,
and the second head as the start. -/
def interleaved : Grammar where
  nonterminals := .ofList ['S', 'A', 'B']
  terminals := .ofList ['-', '>', '→', 'x']
  productions := [⟨'S', ['A', '-']⟩, ⟨'A', ['>']⟩, ⟨'S', []⟩, ⟨'A', ['→', '-']⟩]
  start := 'A'

/-- The hypotheses of `read_text_regroups` are satisfiable, also those for a text. -/
theorem read_text_interleaved :
    interleaved.defect? = none ∧ interleaved.IsLegible ∧
      ∃ k, read interleaved.text = .ok k ∧ interleaved.IsRegrouped k ∧ read k.text = .ok k ∧
        k.start = 'S' ∧ ((∃ k', read k.text = .ok k') ↔ ¬ k.HasArrow) := by
  have hdefect : interleaved.defect? = none := by decide
  have hlegible : interleaved.IsLegible := by decide +kernel
  have harrow : ¬ interleaved.HasArrow := by decide +kernel
  obtain ⟨hiff, hread⟩ := read_text_regroups.1 interleaved hdefect hlegible
  obtain ⟨k, hk⟩ := hiff.2 harrow
  have hregrouped := hread k hk
  have hagain : read k.text = .ok k := by rw [hregrouped.text, hk]
  exact ⟨hdefect, hlegible, k, hk, hregrouped, hagain, (Option.some.inj hregrouped.start).symm,
    (read_text_regroups.2 _ k hk).1⟩

/-- A text can be read although the text of its grammar cannot. -/
example : ∃ g, read "S -> a -> b" = .ok g ∧
    read g.text = .error (.unreadableRule "S → a->b".toList) := ⟨_, rfl, rfl⟩

end Grammar
end LanguageForms
