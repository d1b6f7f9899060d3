import UtilityCss.Proofs.Ownership
import UtilityCss.Proofs.Recognition

/-!
# Style sheets of more tokens

A style sheet of more tokens says what the style sheet of fewer says. The tokens that are added displace
nothing, since two tokens share keyframes rules at most: all other rules stand in the same order as before, and
every query keeps its rules. It makes no difference in what order tokens are given, or how often.
-/

namespace UtilityCss

section Lists

variable {α β : Type} [DecidableEq β]

theorem eraseDups_sublist (l : List β) : l.eraseDups.Sublist l := by
  induction l with
  | nil => exact List.Sublist.slnil
  | cons b l ih =>
    rw [List.eraseDups_cons, eraseDups_filter]
    exact (List.filter_sublist.trans ih).cons_cons b

theorem removeAll_flatMap_filter_ne [DecidableEq α] (a : α) (l : List α) (f : α → List β) :
    ((l.filter fun b => !b == a).flatMap f).removeAll (f a) = (l.flatMap f).removeAll (f a) := by
  simp only [List.removeAll, List.filter_flatMap]
  induction l with
  | nil => rfl
  | cons b l ih =>
    by_cases hb : b = a
    · subst hb
      have hself : ((f b).filter fun x => !(f b).contains x) = [] := by simp
      rw [List.filter_cons_of_neg (by simp), ih, List.flatMap_cons, hself, List.nil_append]
    · rw [List.filter_cons_of_pos (by simpa using hb), List.flatMap_cons, List.flatMap_cons, ih]

theorem eraseDups_flatMap_eraseDups [DecidableEq α] (l : List α) (f : α → List β) :
    (l.eraseDups.flatMap f).eraseDups = (l.flatMap f).eraseDups := by
  induction l with
  | nil => rfl
  | cons a l ih =>
    rw [List.eraseDups_cons, eraseDups_filter, List.flatMap_cons, List.flatMap_cons,
      List.eraseDups_append, List.eraseDups_append, removeAll_flatMap_filter_ne, List.removeAll,
      List.removeAll, eraseDups_filter, eraseDups_filter, ih]

theorem eraseDups_flatMap {l : List α} {f : α → List β} (hnodup : l.Nodup)
    (h : ∀ a ∈ l, ∀ b ∈ l, a ≠ b → (f a).Disjoint (f b)) :
    (l.flatMap f).eraseDups = l.flatMap fun a => (f a).eraseDups := by
  induction l with
  | nil => rfl
  | cons a l ih =>
    obtain ⟨ha, hl⟩ := List.nodup_cons.1 hnodup
    have hrest := ih hl fun b hb c hc => h b (List.mem_cons_of_mem a hb) c (List.mem_cons_of_mem a hc)
    have hkept : (l.flatMap f).removeAll (f a) = l.flatMap f := by
      rw [List.removeAll, List.filter_eq_self]
      intro x hx
      obtain ⟨b, hb, hxb⟩ := List.mem_flatMap.1 hx
      have hne : a ≠ b := fun heq => ha (heq ▸ hb)
      have hdisjoint := h a List.mem_cons_self b (List.mem_cons_of_mem a hb) hne
      simpa using fun hxa => hdisjoint hxa hxb
    rw [List.flatMap_cons, List.flatMap_cons, List.eraseDups_append, hkept, hrest]

end Lists

namespace Text

def sorted (texts : List String) : List String := texts.mergeSort fun s t => decide (s ≤ t)

theorem eraseDups_sorted (texts : List String) : (sorted texts).eraseDups = orderedSet texts := by
  have hle : (sorted texts).eraseDups.Pairwise (· ≤ ·) :=
    (List.pairwise_mergeSort' (· ≤ ·) texts).sublist (eraseDups_sublist _)
  have hlt : (sorted texts).eraseDups.Pairwise (· < ·) :=
    hle.imp₂ (fun _ _ hle hne => lt_of_le_of_ne hle hne) (nodup_eraseDups _)
  refine hlt.eq_of_mem_iff (pairwise_orderedSet texts) fun text => ?_
  rw [List.mem_eraseDups, sorted, List.mem_mergeSort, mem_orderedSet]

theorem orderedSet_sublist {texts others : List String} (h : texts ⊆ others) :
    (orderedSet texts).Sublist (orderedSet others) := by
  have hsubset : orderedSet texts ⊆ orderedSet others := by
    intro text htext
    exact mem_orderedSet.2 (h (mem_orderedSet.1 htext))
  have hnodup : (orderedSet texts).Nodup := (pairwise_orderedSet texts).imp ne_of_lt
  exact List.sublist_of_subperm_of_pairwise (hnodup.subperm hsubset)
    (pairwise_orderedSet texts) (pairwise_orderedSet others)

end Text

namespace Compiler

variable {compiler : Compiler} {naming : Naming} {size : Option Int} {uses : List String}

def sheet (compiler : Compiler) (tokens : List String) (base : String) : Stylesheet × Classification :=
  compiler.stylesheet (Text.sorted tokens) base

theorem sheet_of_reflects (h : compiler.Reflects naming size uses) (tokens : List String) (base : String) :
    compiler.sheet tokens base = (.ofTokens naming tokens base, .ofCompiled naming tokens) := by
  have hrules : (Draft.ofTokens naming (Text.sorted tokens)).rules = Stylesheet.rulesOf naming tokens := by
    simp only [Draft.ofTokens, Stylesheet.rulesOf, List.filter_flatMap]
    rw [← eraseDups_flatMap_eraseDups, Text.eraseDups_sorted]
  have hclasses : Classification.ofCompiled naming (Text.sorted tokens) = .ofCompiled naming tokens :=
    Classification.split_congr (fun _ => List.mem_mergeSort) _
  rw [sheet, stylesheet_of_reflects h, hrules, hclasses]
  rfl

theorem sheet_run (naming : Naming) (size : Option Int) (earlier : List Call) (tokens : List String)
    (base : String) : ((fresh naming size).run earlier).2.sheet tokens base =
      (.ofTokens naming tokens base, .ofCompiled naming tokens) :=
  sheet_of_reflects ((reflects_fresh naming size).run (reflects_fresh naming size) earlier).2 tokens base

end Compiler

namespace Stylesheet
open SheetText

variable {naming : Naming} {tokens others : List String} {part : Part}

theorem rulesOf_subset (h : tokens ⊆ others) : rulesOf naming tokens ⊆ rulesOf naming others := by
  intro rule hrule
  obtain ⟨hdeclares, text, htext, hmem⟩ := mem_rulesOf.1 hrule
  exact mem_rulesOf.2 ⟨hdeclares, text, (Text.orderedSet_sublist h).subset htext, hmem⟩

theorem filter_rulesOf (naming : Naming) (tokens : List String) :
    ((rulesOf naming tokens).filter fun rule => !rule.isKeyframes) =
      (Text.orderedSet tokens).flatMap fun text => ((naming.rules text).filter fun rule =>
        !rule.isKeyframes && !rule.declarations.isEmpty).eraseDups := by
  rw [rulesOf, ← eraseDups_filter, List.filter_filter, List.filter_flatMap]
  refine eraseDups_flatMap ((Text.pairwise_orderedSet tokens).imp ne_of_lt) ?_
  intro text _ other _ hne rule hrule hother
  obtain ⟨hrule, hkeep⟩ := List.mem_filter.1 hrule
  have hkeyframes := Naming.isKeyframes_of_shared hne hrule (List.mem_of_mem_filter hother)
  simp [hkeyframes] at hkeep

theorem filter_rulesOf_sublist (h : tokens ⊆ others) :
    ((rulesOf naming tokens).filter fun rule => !rule.isKeyframes).Sublist
      ((rulesOf naming others).filter fun rule => !rule.isKeyframes) := by
  rw [filter_rulesOf, filter_rulesOf]
  exact (Text.orderedSet_sublist h).flatMap _

theorem rules_of_mem_parts {sheet : Stylesheet} {part : Part} (h : part ∈ sheet.parts) :
    part.rules = sheet.rules.filter fun rule => rule.media = part.query := by
  rcases mem_parts h with ⟨rfl, -⟩ | ⟨query, -, rfl⟩
  · refine List.filter_congr fun rule _ => ?_
    cases rule.media <;> rfl
  · rfl

theorem filter_rules_of_query (h : part ∈ (ofTokens naming tokens "").parts) (hquery : part.query ≠ none) :
    (part.rules.filter fun rule => !rule.isKeyframes) = part.rules := by
  rw [List.filter_eq_self]
  intro rule hrule
  obtain ⟨hmem, hmedia⟩ := mem_rules_of_mem_parts h hrule
  obtain ⟨-, text, -, hproduced⟩ := mem_rulesOf.1 hmem
  rcases Naming.animates_or_styles hproduced with hanimates | hstyles
  · exact absurd (hmedia.symm.trans hanimates.media) hquery
  · rw [hstyles.isKeyframes, Bool.not_false]

theorem exists_part_of_subset (h : tokens ⊆ others) (hpart : part ∈ (ofTokens naming tokens "").parts) :
    ∃ larger ∈ (ofTokens naming others "").parts, larger.query = part.query ∧
      part.rules ⊆ larger.rules ∧
      (part.rules.filter fun rule => !rule.isKeyframes).Sublist
        (larger.rules.filter fun rule => !rule.isKeyframes) ∧
      (part.query ≠ none → part.rules.Sublist larger.rules) := by
  obtain ⟨rule, hrule⟩ := List.exists_mem_of_ne_nil _ (rules_ne_of_mem_parts hpart)
  obtain ⟨hmem, hmedia⟩ := mem_rules_of_mem_parts hpart hrule
  have hlater : rule ∈ (ofTokens naming others "").rules := rulesOf_subset h hmem
  obtain ⟨larger, hlarger, hfound⟩ := List.mem_flatMap.1 (mem_flatMap_parts.2 hlater)
  have hquery : larger.query = part.query :=
    (mem_rules_of_mem_parts hlarger hfound).2.symm.trans hmedia
  have hrules : part.rules = (rulesOf naming tokens).filter fun rule => rule.media = part.query :=
    rules_of_mem_parts hpart
  have hothers : larger.rules = (rulesOf naming others).filter fun rule => rule.media = part.query :=
    hquery ▸ rules_of_mem_parts hlarger
  have hkept : (part.rules.filter fun rule => !rule.isKeyframes).Sublist
      (larger.rules.filter fun rule => !rule.isKeyframes) := by
    rw [hrules, hothers, List.filter_comm, List.filter_comm (l := rulesOf naming others)]
    exact (filter_rulesOf_sublist h).filter _
  refine ⟨larger, hlarger, hquery, ?_, hkept, fun hne => ?_⟩
  · rw [hrules, hothers]
    exact List.filter_subset _ (rulesOf_subset h)
  · rwa [filter_rules_of_query hpart hne, filter_rules_of_query hlarger (hquery ▸ hne)] at hkept

end Stylesheet

open Text Stylesheet SheetText

/-- Adding tokens to a style sheet leaves what it says in place: every rule is kept under its query, and the
rules that are no keyframes rules keep their order, in each query and outside. The same tokens give the same
style sheet on any base, however they are ordered and repeated, and are told apart alike. -/
theorem Compiler.sheet_of_subset {naming : Naming} (hpre : '\n' ∉ naming.classPrefix.toList)
    (size otherSize : Option Int) (earlier later : List Call) {tokens others : List String}
    (h : tokens ⊆ others) :
    let compiler := ((fresh naming size).run earlier).2
    let used := ((fresh naming otherSize).run later).2
    (∃ parts grown, read? (compiler.sheet tokens "").1.render.toList = some parts ∧
      read? (used.sheet others "").1.render.toList = some grown ∧
      ∀ part ∈ parts, ∃ larger ∈ grown, larger.query = part.query ∧ part.rules ⊆ larger.rules ∧
        (part.rules.filter fun rule => !rule.isKeyframes).Sublist
          (larger.rules.filter fun rule => !rule.isKeyframes) ∧
        (part.query ≠ none → part.rules.Sublist larger.rules)) ∧
    (others ⊆ tokens → ∀ base, compiler.sheet tokens base = used.sheet others base) := by
  intro compiler used
  refine ⟨⟨(ofTokens naming tokens "").parts, (ofTokens naming others "").parts, ?_, ?_, ?_⟩, ?_⟩
  · rw [sheet_run]
    exact read?_render (oneLine_iff.2 hpre) tokens
  · rw [sheet_run]
    exact read?_render (oneLine_iff.2 hpre) others
  · exact fun part hpart => exists_part_of_subset h hpart
  · intro h' base
    have hsame : ∀ token, token ∈ tokens ↔ token ∈ others := fun token => ⟨@h token, @h' token⟩
    rw [sheet_run, sheet_run, Stylesheet.ofTokens, Stylesheet.ofTokens, rulesOf, rulesOf,
      Text.orderedSet_congr hsame, Classification.ofCompiled, Classification.ofCompiled,
      Classification.split_congr hsame]

theorem Compiler.sheet_of_subset_animated :
    let compiler := (fresh {} (some 1)).run [⟨.rule, .text "vibe-flex"⟩]
    let tokens := ["vibe-p-4", "md:vibe-flex", "vibe-p-4", "vibe-animate-float-delayed"]
    let others := ["vibe-p-4", "vibe-animate-float", "vibe-animate-float-delayed", "md:hover:vibe-m-2",
      "md:vibe-flex"]
    '\n' ∉ ({} : Naming).classPrefix.toList ∧ tokens ⊆ others ∧
      ∃ parts grown, read? (compiler.2.sheet tokens "").1.render.toList = some parts ∧
        read? (compiler.2.sheet others "").1.render.toList = some grown ∧
        ∀ part ∈ parts, ∃ larger ∈ grown, larger.query = part.query ∧ part.rules ⊆ larger.rules ∧
          (part.rules.filter fun rule => !rule.isKeyframes).Sublist
            (larger.rules.filter fun rule => !rule.isKeyframes) ∧
          (part.query ≠ none → part.rules.Sublist larger.rules) := by
  intro compiler tokens others
  have hpre : '\n' ∉ ({} : Naming).classPrefix.toList := by decide
  have hsubset : tokens ⊆ others := by decide
  exact ⟨hpre, hsubset, (sheet_of_subset hpre _ _ _ _ hsubset).1⟩

end UtilityCss
