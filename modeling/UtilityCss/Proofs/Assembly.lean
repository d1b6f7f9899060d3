import Mathlib.Data.List.Nodup
import UtilityCss.Proofs.CompiledRules
import UtilityCss.Proofs.SheetText
import UtilityCss.Stylesheet

/-!
# What a style sheet says

The text of a style sheet without a base is read back part by part. It holds the rules of its tokens that
declare something and no others, each once, unconditional rules first and then one part for each media query;
inside a part the rules stand in the order in which the sorted tokens first produce them.
-/

namespace UtilityCss
open Text

namespace Text

theorem pairwise_insertOrdered {s : String} {texts : List String} (h : texts.Pairwise (· < ·)) :
    (insertOrdered s texts).Pairwise (· < ·) := by
  induction texts with
  | nil => exact List.pairwise_singleton _ s
  | cons t rest ih =>
    obtain ⟨hfirst, hrest⟩ := List.pairwise_cons.1 h
    rw [insertOrdered]
    split
    · rename_i hlt
      refine List.pairwise_cons.2 ⟨?_, h⟩
      intro u hu
      rcases List.mem_cons.1 hu with rfl | hu
      · exact hlt
      · exact String.lt_trans hlt (hfirst u hu)
    · rename_i hnlt
      split
      · exact h
      · rename_i hne
        have hlt : t < s := by
          by_contra hnlt'
          exact hne (String.le_antisymm hnlt' hnlt)
        refine List.pairwise_cons.2 ⟨?_, ih hrest⟩
        intro u hu
        rcases mem_insertOrdered.1 hu with rfl | hu
        · exact hlt
        · exact hfirst u hu

theorem pairwise_orderedSet (texts : List String) : (orderedSet texts).Pairwise (· < ·) := by
  induction texts with
  | nil => exact List.Pairwise.nil
  | cons text rest ih => exact pairwise_insertOrdered ih

end Text

section Listing

variable {α : Type} [BEq α] [LawfulBEq α]

theorem idxOf_lt_of_filter {p : α → Bool} {a b : α} (ha : p a) (hb : p b) {l : List α}
    (h : (l.filter p).idxOf a < (l.filter p).idxOf b) : l.idxOf a < l.idxOf b := by
  induction l with
  | nil => simp at h
  | cons x l ih =>
    by_cases hx : p x
    · rw [List.filter_cons_of_pos hx, List.idxOf_cons, List.idxOf_cons] at h
      rw [List.idxOf_cons, List.idxOf_cons]
      by_cases hxb : x == b
      · simp [hxb] at h
      · by_cases hxa : x == a
        · simp [hxa, hxb]
        · simp only [hxa, hxb, cond_false, Nat.add_lt_add_iff_right] at h ⊢
          exact ih h
    · have hne {y : α} (hy : p y) : (x == y) = false := by
        rw [beq_eq_false_iff_ne]
        rintro rfl
        exact hx hy
      rw [List.filter_cons_of_neg hx] at h
      rw [List.idxOf_cons, List.idxOf_cons, hne ha, hne hb]
      exact Nat.succ_lt_succ (ih h)

theorem holds_of_mem_eraseDups_filter {p : α → Bool} {a : α} {l : List α}
    (h : a ∈ (l.filter p).eraseDups) : p a :=
  (List.mem_filter.1 (List.mem_eraseDups.1 h)).2

theorem idxOf_lt_of_mem_eraseDups_filter {p : α → Bool} {a b : α} {l : List α}
    (ha : a ∈ (l.filter p).eraseDups) (hb : b ∈ (l.filter p).eraseDups)
    (h : (l.filter p).idxOf a < (l.filter p).idxOf b) : l.idxOf a < l.idxOf b :=
  idxOf_lt_of_filter (holds_of_mem_eraseDups_filter ha) (holds_of_mem_eraseDups_filter hb) h

theorem pairwise_eraseDups (l : List α) :
    l.eraseDups.Pairwise fun a b => l.idxOf a < l.idxOf b := by
  generalize hlength : l.length = n
  induction n using Nat.strongRecOn generalizing l with
  | ind n ih =>
    cases l with
    | nil => exact List.Pairwise.nil
    | cons x l =>
      have hshorter : (l.filter fun y => !y == x).length < n := by
        rw [← hlength, List.length_cons]
        exact Nat.lt_succ_of_le (List.length_filter_le _ l)
      have hrest := ih _ hshorter (l.filter fun y => !y == x) rfl
      have hother : ∀ y ∈ (l.filter fun y => !y == x).eraseDups, (x == y) = false := by
        intro y hy
        have hkept := holds_of_mem_eraseDups_filter hy
        rw [beq_eq_false_iff_ne]
        rintro rfl
        simp at hkept
      rw [List.eraseDups_cons, List.pairwise_cons]
      refine ⟨fun y hy => ?_, hrest.imp_of_mem fun {a b} ha hb hlt => ?_⟩
      · rw [List.idxOf_cons_self, List.idxOf_cons, hother y hy]
        exact Nat.succ_pos _
      · rw [List.idxOf_cons, List.idxOf_cons, hother a ha, hother b hb]
        apply Nat.succ_lt_succ
        exact idxOf_lt_of_mem_eraseDups_filter ha hb hlt

theorem nodup_eraseDups (l : List α) : l.eraseDups.Nodup :=
  (pairwise_eraseDups l).imp fun {a b} hlt heq => by
    subst heq
    exact Nat.lt_irrefl _ hlt

theorem eraseDups_concat (l : List α) (a : α) :
    (l ++ [a]).eraseDups = if a ∈ l then l.eraseDups else l.eraseDups ++ [a] := by
  rw [List.eraseDups_append, List.cons_removeAll, List.contains_eq_mem]
  by_cases hmem : a ∈ l
  · simp [hmem]
  · simp [hmem, List.eraseDups_cons]

end Listing

namespace Stylesheet
open SheetText

def parts (sheet : Stylesheet) : List Part :=
  (if sheet.unconditional.isEmpty then [] else [{ rules := sheet.unconditional }]) ++
    sheet.queries.map fun query => { query := some query, rules := sheet.rulesUnder query }

theorem toList_lines (texts : List String) :
    (lines texts).toList = ['\n'].intercalate (texts.map String.toList) := by
  rw [lines, String.toList_intercalate]
  rfl

theorem toList_unconditional (rules : List Rule) (hne : rules ≠ []) :
    (lines (rules.map Rule.body) ++ "\n").toList = ended (Part.lines { rules }) := by
  have hlines : (rules.map fun rule => rule.body.toList) ≠ [] := by simpa using hne
  have hended := intercalate_concat_newline hlines
  rw [String.toList_append, toList_lines, List.map_map]
  exact hended

theorem toList_block (sheet : Stylesheet) {query : String} (hne : sheet.rulesUnder query ≠ []) :
    (sheet.block query).toList =
      ended (Part.lines { query := some query, rules := sheet.rulesUnder query }) := by
  have hlines : ((sheet.rulesUnder query).map fun rule => ' ' :: ' ' :: rule.body.toList) ≠ [] := by
    simpa using hne
  have hended := intercalate_concat_newline hlines
  have hbodies : ((sheet.rulesUnder query).map fun rule => "  " ++ rule.body).map String.toList =
      (sheet.rulesUnder query).map fun rule => ' ' :: ' ' :: rule.body.toList := by
    rw [List.map_map]
    exact List.map_congr_left fun rule _ => String.toList_append
  have hblock : (sheet.block query).toList = (Part.header query ++ ['\n']) ++
      (['\n'].intercalate ((sheet.rulesUnder query).map fun rule =>
        ' ' :: ' ' :: rule.body.toList) ++ ['\n']) ++ (['\x7d'] ++ ['\n']) := by
    rw [block]
    simp only [String.toList_append, toList_lines, hbodies, Part.header, List.append_assoc]
    rfl
  rw [hblock, hended, Part.lines, ended, ended]
  simp

theorem toList_render {sheet : Stylesheet} (hbase : sheet.base = "")
    (hqueries : ∀ query ∈ sheet.queries, sheet.rulesUnder query ≠ []) :
    sheet.render.toList = write sheet.parts := by
  have hsections : sheet.sections.map String.toList =
      (sheet.parts.map Part.lines).map ended := by
    have hblocks : (sheet.queries.map sheet.block).map String.toList =
        ((sheet.queries.map fun query =>
          ({ query := some query, rules := sheet.rulesUnder query } : Part)).map Part.lines).map ended := by
      rw [List.map_map, List.map_map, List.map_map]
      exact List.map_congr_left fun query hquery => sheet.toList_block (hqueries query hquery)
    rw [sections, parts, hbase]
    by_cases hempty : sheet.unconditional = []
    · simpa [hempty] using hblocks
    · have hunconditional := toList_unconditional _ hempty
      simp only [List.map_append, hblocks]
      simpa [hempty] using hunconditional
  rw [render, toList_lines, hsections, write, ended_intercalate]

variable {sheet : Stylesheet}

theorem mem_unconditional {rule : Rule} :
    rule ∈ sheet.unconditional ↔ rule ∈ sheet.rules ∧ rule.media = none := by
  simp [unconditional]

theorem mem_rulesUnder {query : String} {rule : Rule} :
    rule ∈ sheet.rulesUnder query ↔ rule ∈ sheet.rules ∧ rule.media = some query := by
  simp [rulesUnder]

theorem mem_queries {query : String} :
    query ∈ sheet.queries ↔ ∃ rule ∈ sheet.rules, rule.media = some query := by
  rw [queries, List.mem_eraseDups, List.mem_filterMap]

theorem rulesUnder_ne_nil {query : String} (h : query ∈ sheet.queries) :
    sheet.rulesUnder query ≠ [] := by
  obtain ⟨rule, hrule, hmedia⟩ := mem_queries.1 h
  exact List.ne_nil_of_mem (mem_rulesUnder.2 ⟨hrule, hmedia⟩)

theorem mem_parts {part : Part} (h : part ∈ sheet.parts) :
    (part = { rules := sheet.unconditional } ∧ sheet.unconditional ≠ []) ∨
      ∃ query ∈ sheet.queries, part = { query := some query, rules := sheet.rulesUnder query } := by
  rcases List.mem_append.1 h with h | h
  · split at h
    · cases h
    · rename_i hne
      exact Or.inl ⟨List.mem_singleton.1 h, by simpa using hne⟩
  · obtain ⟨query, hquery, rfl⟩ := List.mem_map.1 h
    exact Or.inr ⟨query, hquery, rfl⟩

theorem rules_ne_of_mem_parts {part : Part} (h : part ∈ sheet.parts) : part.rules ≠ [] := by
  rcases mem_parts h with ⟨rfl, hne⟩ | ⟨query, hquery, rfl⟩
  · exact hne
  · exact rulesUnder_ne_nil hquery

theorem mem_rules_of_mem_parts {part : Part} (h : part ∈ sheet.parts) {rule : Rule}
    (hrule : rule ∈ part.rules) : rule ∈ sheet.rules ∧ rule.media = part.query := by
  rcases mem_parts h with ⟨rfl, -⟩ | ⟨query, -, rfl⟩
  · exact mem_unconditional.1 hrule
  · exact mem_rulesUnder.1 hrule

theorem mem_flatMap_parts {rule : Rule} :
    rule ∈ sheet.parts.flatMap Part.rules ↔ rule ∈ sheet.rules := by
  rw [List.mem_flatMap]
  constructor
  · rintro ⟨part, hpart, hrule⟩
    exact (mem_rules_of_mem_parts hpart hrule).1
  · intro hrule
    cases hmedia : rule.media with
    | none =>
      have hmem := mem_unconditional.2 ⟨hrule, hmedia⟩
      have hne : ¬sheet.unconditional.isEmpty := by simpa using List.ne_nil_of_mem hmem
      refine ⟨{ rules := sheet.unconditional }, List.mem_append_left _ ?_, hmem⟩
      rw [if_neg hne]
      exact List.mem_singleton_self _
    | some query =>
      have hquery := mem_queries.2 ⟨rule, hrule, hmedia⟩
      exact ⟨{ query := some query, rules := sheet.rulesUnder query },
        List.mem_append_right _ (List.mem_map.2 ⟨query, hquery, rfl⟩),
        mem_rulesUnder.2 ⟨hrule, hmedia⟩⟩

theorem pairwise_of_mem_parts {r : Rule → Rule → Prop} (h : sheet.rules.Pairwise r) {part : Part}
    (hpart : part ∈ sheet.parts) : part.rules.Pairwise r := by
  rcases mem_parts hpart with ⟨rfl, -⟩ | ⟨query, -, rfl⟩
  · exact h.filter _
  · exact h.filter _

theorem nodup_map_query (sheet : Stylesheet) : (sheet.parts.map Part.query).Nodup := by
  have hqueries : ((sheet.queries.map fun query =>
      ({ query := some query, rules := sheet.rulesUnder query } : Part)).map Part.query).Nodup := by
    rw [List.map_map]
    exact (nodup_eraseDups _).map (Option.some_injective String)
  rw [parts]
  split
  · exact hqueries
  · rw [List.singleton_append, List.map_cons, List.nodup_cons]
    exact ⟨by simp, hqueries⟩

theorem query_ne_none_of_mem_tail {part : Part} (h : part ∈ sheet.parts.tail) :
    part.query ≠ none := by
  have hsome : ∀ part ∈ sheet.queries.map fun query =>
      ({ query := some query, rules := sheet.rulesUnder query } : Part), part.query ≠ none := by
    intro part hpart
    obtain ⟨query, -, rfl⟩ := List.mem_map.1 hpart
    exact Option.some_ne_none query
  rw [parts] at h
  split at h
  · exact hsome part (List.mem_of_mem_tail h)
  · exact hsome part h

theorem nodup_flatMap_parts (h : sheet.rules.Nodup) : (sheet.parts.flatMap Part.rules).Nodup := by
  rw [List.nodup_flatMap]
  refine ⟨fun part hpart => pairwise_of_mem_parts h hpart, ?_⟩
  have hqueries := List.pairwise_map.1 (nodup_map_query sheet)
  refine hqueries.imp_of_mem fun {part other} hpart hother hne => ?_
  intro rule hrule hrule'
  have hmedia := (mem_rules_of_mem_parts hpart hrule).2
  have hmedia' := (mem_rules_of_mem_parts hother hrule').2
  exact hne (hmedia.symm.trans hmedia')

end Stylesheet

namespace Rule
open Selector SheetText

variable {naming : Naming} {text : String} {rule : Rule}

theorem Animates.readable (h : rule.Animates) : Readable rule := by
  obtain ⟨name, hname, hselector⟩ := h.selector
  have hword : MadeOf isQuiet "@keyframes " := .ofList rfl
  refine {
    selector := .of_written (.of_quiet ?_)
    start := Or.inr ⟨"eyframes ".toList ++ name.toList, ?_⟩
    declarations := h.declarations.oneLine }
  · rw [hselector]
    exact hword.append hname
  · rw [hselector]
    simp

theorem Styles.readable (h : rule.Styles naming text) (hpre : OneLine naming.classPrefix) :
    Readable rule := by
  obtain ⟨hhead, names, hwritten⟩ := h.selector
  exact {
    selector := .of_written hwritten
    start := Or.inl ⟨rule.selector.toList.tail, (List.eq_cons_of_mem_head? hhead)⟩
    declarations := h.declarations hpre }

theorem readable_of_mem_rules (hpre : OneLine naming.classPrefix) (h : rule ∈ naming.rules text) :
    Readable rule ∧ ∀ query ∈ rule.media, OneLine query := by
  rcases Naming.animates_or_styles h with h | h
  · refine ⟨h.readable, fun query hquery => ?_⟩
    rw [h.media] at hquery
    cases hquery
  · exact ⟨h.readable hpre, fun query hquery => (h.media query hquery).1⟩

end Rule

namespace Stylesheet
open SheetText

variable {naming : Naming} {tokens : List String}

theorem mem_rulesOf {rule : Rule} : rule ∈ rulesOf naming tokens ↔
    rule.declarations ≠ "" ∧ ∃ text ∈ orderedSet tokens, rule ∈ naming.rules text := by
  rw [rulesOf, List.mem_eraseDups, List.mem_filter, List.mem_flatMap, and_comm]
  simp

theorem pairwise_rulesOf (naming : Naming) (tokens : List String) :
    (rulesOf naming tokens).Pairwise fun a b =>
      ((orderedSet tokens).flatMap naming.rules).idxOf a <
        ((orderedSet tokens).flatMap naming.rules).idxOf b := by
  refine (pairwise_eraseDups _).imp_of_mem fun {a b} ha hb hlt => ?_
  exact idxOf_lt_of_mem_eraseDups_filter ha hb hlt

/-- What parts of a sheet say of tokens in a given order. -/
structure Assembles (naming : Naming) (order : List String) (parts : List Part) : Prop where
  mem_iff : ∀ rule, rule ∈ parts.flatMap Part.rules ↔
    rule.declarations ≠ "" ∧ ∃ text ∈ order, rule ∈ naming.rules text
  nodup : (parts.flatMap Part.rules).Nodup
  media : ∀ part ∈ parts, ∀ rule ∈ part.rules, rule.media = part.query
  rules_ne : ∀ part ∈ parts, part.rules ≠ []
  /-- No query is opened twice, and there is one row of unconditional rules at most. -/
  queries : (parts.map Part.query).Nodup
  unconditional_first : ∀ part ∈ parts.tail, part.query ≠ none
  sorted : ∀ part ∈ parts, part.rules.Pairwise fun a b =>
    (order.flatMap naming.rules).idxOf a < (order.flatMap naming.rules).idxOf b

theorem assembles_parts (naming : Naming) (tokens : List String) :
    Assembles naming (orderedSet tokens) (ofTokens naming tokens "").parts where
  mem_iff rule := by rw [mem_flatMap_parts]; exact mem_rulesOf
  nodup := nodup_flatMap_parts (nodup_eraseDups _)
  media part hpart rule hrule := (mem_rules_of_mem_parts hpart hrule).2
  rules_ne part hpart := rules_ne_of_mem_parts hpart
  queries := nodup_map_query _
  unconditional_first part hpart := query_ne_none_of_mem_tail hpart
  sorted part hpart := pairwise_of_mem_parts (pairwise_rulesOf naming tokens) hpart

theorem read?_render (hpre : OneLine naming.classPrefix) (tokens : List String) :
    read? (ofTokens naming tokens "").render.toList = some (ofTokens naming tokens "").parts := by
  rw [toList_render rfl fun query hquery => rulesUnder_ne_nil hquery]
  refine read?_write fun part hpart => ?_
  have hrules : ∀ rule ∈ part.rules, (SheetText.Readable rule ∧ ∀ query ∈ rule.media, OneLine query) ∧
      rule.media = part.query := by
    intro rule hrule
    obtain ⟨hmem, hmedia⟩ := mem_rules_of_mem_parts hpart hrule
    obtain ⟨-, text, -, hproduced⟩ := mem_rulesOf.1 hmem
    exact ⟨Rule.readable_of_mem_rules hpre hproduced, hmedia⟩
  exact {
    rules_ne := rules_ne_of_mem_parts hpart
    rules := fun rule hrule => ⟨(hrules rule hrule).1.1, (hrules rule hrule).2⟩
    query := by
      obtain ⟨rule, hrule⟩ := List.exists_mem_of_ne_nil _ (rules_ne_of_mem_parts hpart)
      obtain ⟨⟨-, hquery⟩, hmedia⟩ := hrules rule hrule
      rwa [hmedia] at hquery }

/-- The style sheet of a set of tokens, under a prefix on one line, says what the tokens produce: read back
line by line, it gives each of their rules that declare something once, in its part and in order. The tokens
with rules and the others are told apart. -/
theorem render_reads_back {naming : Naming} (hpre : '\n' ∉ naming.classPrefix.toList)
    (tokens : List String) :
    (∃ parts order, read? (ofTokens naming tokens "").render.toList = some parts ∧
      order.Pairwise (· < ·) ∧ (∀ text, text ∈ order ↔ text ∈ tokens) ∧
        Assembles naming order parts) ∧
      (Classification.ofCompiled naming tokens).recognized.Disjoint
        (Classification.ofCompiled naming tokens).unknown ∧
      ∀ text, text ∈ (Classification.ofCompiled naming tokens).recognized ++
        (Classification.ofCompiled naming tokens).unknown ↔ text ∈ tokens := by
  refine ⟨⟨_, orderedSet tokens, read?_render (oneLine_iff.2 hpre) tokens,
    pairwise_orderedSet tokens, fun text => mem_orderedSet, assembles_parts naming tokens⟩, ?_, ?_⟩
  · intro text hrecognized hunknown
    have hrules : (!(naming.rules text).isEmpty) = true := (List.mem_filter.1 hrecognized).2
    have hnone : (!!(naming.rules text).isEmpty) = true := (List.mem_filter.1 hunknown).2
    rw [hrules] at hnone
    cases hnone
  · intro text
    rw [List.mem_append, Classification.ofCompiled, Classification.split, List.mem_filter,
      List.mem_filter, ← mem_orderedSet (l := tokens)]
    cases (naming.rules text).isEmpty <;> simp

theorem render_reads_back_medium_padding :
    '\n' ∉ ({} : Naming).classPrefix.toList ∧
      ∃ parts, read? (ofTokens {} ["md:vibe-p-4", "vibe-flex", "vibe-group", "btn"]
        "").render.toList = some parts ∧
          { selector := ".md\\:vibe-p-4", declarations := "padding: 1rem;",
            media := some "(min-width: 768px)" } ∈ parts.flatMap Part.rules := by
  have hpre : '\n' ∉ ({} : Naming).classPrefix.toList := by decide
  obtain ⟨parts, order, hread, -, horder, hassembles⟩ :=
    (render_reads_back hpre ["md:vibe-p-4", "vibe-flex", "vibe-group", "btn"]).1
  refine ⟨hpre, parts, hread, (hassembles.mem_iff _).2 ⟨by decide, "md:vibe-p-4", ?_, ?_⟩⟩
  · exact (horder _).2 List.mem_cons_self
  · decide +kernel

end Stylesheet

end UtilityCss
