import UtilityCss.Pass.Base
import UtilityCss.Proofs.Equivariance
import UtilityCss.Proofs.Replacement

/-!
# The properties behind the semantic colors

A semantic color is written as a custom property, and the base style sheet defines the custom property of
every semantic color in its block `:root`. The sheet of a project is the bundled one with the word of the project
put in place of the bundled word wherever a property begins, and both sides use the same word.
-/

namespace UtilityCss
open Text

/-! ### The lines of the base sheet -/

namespace BaseSheet

def lines (word : String) : List String := [""].intercalate (paragraphs word)

theorem render_eq (word : String) : render word = String.join ((lines word).map (· ++ "\n")) := by
  rw [render, lines]
  induction paragraphs word with
  | nil => rfl
  | cons paragraph rest ih =>
    cases rest with
    | nil => simp [String.intercalate_singleton]
    | cons next rest =>
      rw [List.map_cons] at ih
      rw [List.map_cons, List.map_cons, String.intercalate_cons_cons, ih, List.intercalate_cons_cons]
      simp [String.append_assoc]

def bundledMark : List Char := "--vibe-".toList

def markOf (word : String) : List Char := ("--" ++ word ++ "-").toList

def marked (word line : String) : String :=
  String.ofList (replaced bundledMark (markOf word) line.toList)

theorem marked_of_not_mentions {line : String} (h : mentions bundledMark line.toList = false)
    (word : String) : marked word line = line := by
  rw [marked, replaced_of_not_mentions h, String.ofList_toList]

theorem marked_property {before color : String} {sep : Char} (hsep : sep ∉ bundledMark)
    (hbefore : mentions bundledMark before.toList = false)
    (hcolor : mentions bundledMark color.toList = false) (word : String) :
    marked word (before ++ String.singleton sep ++ property "vibe" color) =
      before ++ String.singleton sep ++ property word color := by
  have hne : bundledMark ≠ [] := by decide
  have hbundled : (property "vibe" color).toList = bundledMark ++ color.toList := by
    rw [property, String.toList_append]
    rfl
  rw [← String.toList_inj, marked, String.toList_ofList, String.toList_append, String.toList_append,
    hbundled, String.toList_singleton, List.append_assoc, List.singleton_append,
    replaced_append_cons hsep hne, replaced_of_not_mentions hbefore, replaced_append_part hne,
    replaced_of_not_mentions hcolor]
  simp [property, markOf]

theorem map_intercalate {α β : Type} (f : α → β) (sep : List α) (parts : List (List α)) :
    (sep.intercalate parts).map f = (sep.map f).intercalate (parts.map (List.map f)) := by
  induction parts with
  | nil => rfl
  | cons part parts ih =>
    cases parts with
    | nil => simp [List.intercalate]
    | cons next parts =>
      rw [List.intercalate_cons_cons, List.map_append, List.map_append, ih, List.map_cons, List.map_cons,
        List.map_cons, List.intercalate_cons_cons]

theorem map_marked_definitions (word : String) {colors : List (String × String)}
    (h : ∀ p ∈ colors, mentions bundledMark (p.1.toList ++ ':' :: ' ' :: (p.2.toList ++ [';'])) = false) :
    ((definitions "vibe" colors).map ("  " ++ ·)).map (marked word) =
      (definitions word colors).map ("  " ++ ·) := by
  rw [definitions, definitions, List.map_map, List.map_map, List.map_map]
  refine List.map_congr_left fun p hp => ?_
  have hplain : mentions bundledMark (p.1 ++ ": " ++ p.2 ++ ";").toList = false := by
    simpa using h p hp
  have hline := @marked_property " " _ ' ' (by decide) (by decide) hplain word
  simpa [property, String.append_assoc] using hline

theorem map_marked_block {head : String} {lines others : List String} {word : String}
    (hhead : mentions bundledMark (head ++ " \x7b").toList = false)
    (h : (lines.map ("  " ++ ·)).map (marked word) = others.map ("  " ++ ·)) :
    (block head lines).map (marked word) = block head others := by
  have hend : marked word "\x7d" = "\x7d" := marked_of_not_mentions (by decide) word
  rw [block, List.map_append, List.map_cons, h, marked_of_not_mentions hhead, List.map_cons, hend]
  rfl

theorem map_marked_of_not_mentions {lines : List String}
    (h : ∀ line ∈ lines, mentions bundledMark line.toList = false) (word : String) :
    lines.map (marked word) = lines := by
  rw [List.map_congr_left fun line hline => marked_of_not_mentions (h line hline) word, List.map_id']

theorem map_marked_defaults (word : String) :
    ((defaults "vibe").map ("  " ++ ·)).map (marked word) = (defaults word).map ("  " ++ ·) := by
  have hsplit (word : String) : "  " ++ ("border-color: var(" ++ property word "border" ++ ");") =
      "  border-color: var" ++ String.singleton '(' ++ property word "border);" := by
    rw [← String.toList_inj]
    simp [property]
  have hline : marked word ("  " ++ ("border-color: var(" ++ property "vibe" "border" ++ ");")) =
      "  " ++ ("border-color: var(" ++ property word "border" ++ ");") := by
    rw [hsplit, hsplit]
    exact marked_property (by decide) (by decide) (by decide) word
  have hrest {line : String} (h : mentions bundledMark ("  " ++ line).toList = false) :
      marked word ("  " ++ line) = "  " ++ line := marked_of_not_mentions h word
  simp only [defaults, List.map_cons, List.map_nil, hline]
  rw [hrest (by decide), hrest (by decide), hrest (by decide), hrest (by decide), hrest (by decide),
    hrest (by decide)]

theorem not_mentions_definition {name value : List Char}
    (h : mentions bundledMark (name ++ ':' :: ' ' :: (value ++ [';'])) = false) :
    mentions bundledMark ((String.ofList name).toList ++ ':' :: ' ' ::
      ((String.ofList value).toList ++ [';'])) = false := by
  rwa [String.toList_ofList, String.toList_ofList]

theorem map_marked_paragraphs (word : String) :
    (paragraphs "vibe").map (List.map (marked word)) = paragraphs word := by
  have hlight := @map_marked_definitions word lightColors (by
    repeat' first
      | exact List.forall_mem_nil _
      | refine List.forall_mem_cons.2 ⟨not_mentions_definition rfl, ?_⟩)
  have hdark := @map_marked_definitions word darkColors (by
    repeat' first
      | exact List.forall_mem_nil _
      | refine List.forall_mem_cons.2 ⟨not_mentions_definition rfl, ?_⟩)
  have hanimations : ∀ p ∈ animations, ∀ line ∈ block ("@keyframes " ++ p.1) p.2,
      mentions bundledMark line.toList = false := by decide +kernel
  rw [paragraphs, paragraphs]
  simp only [List.map_cons, List.map_nil, List.map_map, Function.comp_def]
  rw [map_marked_block (by decide) hlight, map_marked_block (by decide) hdark,
    map_marked_block (by decide) (map_marked_defaults word), marked_of_not_mentions (by decide),
    List.map_congr_left fun p hp => map_marked_of_not_mentions (hanimations p hp) word]

theorem replaced_render (word : String) :
    replaced bundledMark (markOf word) (render "vibe").toList = (render word).toList := by
  rw [render_eq, render_eq, replaced_join_lines (by decide) (by decide)]
  change (String.join (((lines "vibe").map (marked word)).map (· ++ "\n"))).toList = _
  rw [lines, lines, map_intercalate, map_marked_paragraphs]
  rw [List.map_cons, marked_of_not_mentions (by decide)]
  rfl

/-! ### The block at the root -/

def opening : String := "/* vibecss base: design tokens, ring defaults and keyframes */\n\n:root \x7b\n"

def rootLines (word : String) : String :=
  String.join (((definitions word lightColors).map ("  " ++ ·)).map (· ++ "\n"))

theorem exists_render_eq (word : String) :
    ∃ after, render word = opening ++ rootLines word ++ "\x7d\n" ++ after := by
  have hparagraphs (first second third : String) (others : List String) : ∃ after,
      "\n".intercalate (first :: second :: third :: others) = first ++ "\n" ++ second ++ after := by
    refine ⟨"\n" ++ "\n".intercalate (third :: others), ?_⟩
    rw [String.intercalate_cons_cons, String.intercalate_cons_cons]
    simp only [String.append_assoc]
  obtain ⟨after, hafter⟩ : ∃ after, render word =
      String.join (["/* vibecss base: design tokens, ring defaults and keyframes */"].map (· ++ "\n")) ++
        "\n" ++ String.join ((block ":root" (definitions word lightColors)).map (· ++ "\n")) ++ after := by
    rw [render, paragraphs, List.map_cons, List.map_cons, List.map_cons]
    exact hparagraphs _ _ _ _
  refine ⟨after, ?_⟩
  rw [hafter, block, ← String.toList_inj]
  simp [opening, rootLines]

end BaseSheet

namespace Block

theorem after?_newline {blocks : List Bracket} {cs : List Char} :
    after? blocks ('\n' :: cs) = after? blocks cs := by
  rw [after?]
  · simp [opened?, closed?]
  · simp
  · simp

theorem after?_join_lines {outer : List Bracket} (houter : outer ≠ []) {lines : List String}
    (h : ∀ line ∈ lines, Contained line) (rest : List Char) :
    after? outer ((String.join (lines.map (· ++ "\n"))).toList ++ rest) = after? outer rest := by
  induction lines with
  | nil => rfl
  | cons line lines ih =>
    have hline : after? outer (line.toList ++ '\n' :: ((String.join (lines.map (· ++ "\n"))).toList ++ rest)) =
        after? outer ('\n' :: ((String.join (lines.map (· ++ "\n"))).toList ++ rest)) :=
      (h line List.mem_cons_self).after? houter (by simp)
    rw [after?_newline, ih fun l hl => h l (List.mem_cons_of_mem line hl)] at hline
    rw [← hline]
    simp

end Block

namespace BaseSheet
open Block

theorem contained_of_mem_definitions {word : String} (h : Contained word) :
    ∀ line ∈ (definitions word lightColors).map ("  " ++ ·), Contained line := by
  have htable : ∀ p ∈ lightColors, leads? false [] p.1.toList = some [] ∧
      leads? false [] p.2.toList = some [] := by decide +kernel
  intro line hline
  rw [definitions, List.map_map] at hline
  obtain ⟨p, hp, rfl⟩ := List.mem_map.1 hline
  have hcolor : Contained p.1 := leads_of_leads? false [] _ (htable p hp).1
  have hvalue : Contained p.2 := leads_of_leads? false [] _ (htable p hp).2
  have hrest : Contained ("-" ++ p.1 ++ ": " ++ p.2 ++ ";") :=
    .append (.append (.append (.append (.ofList rfl) hcolor) (.ofList rfl)) hvalue) (.ofList rfl)
  have hmark : Contained "  --" := .ofList rfl
  have hwhole := (hmark.append h).append hrest
  have hline : "  --" ++ word ++ ("-" ++ p.1 ++ ": " ++ p.2 ++ ";") =
      "  " ++ (property word p.1 ++ ": " ++ p.2 ++ ";") := by
    rw [← String.toList_inj]
    simp [property]
  rwa [hline] at hwhole

end BaseSheet

namespace Palette

theorem isSemantic_iff {color : String} :
    IsSemantic color ↔ color ∈ BaseSheet.lightColors.map Prod.fst := by
  have hdefined : ∀ name ∈ semantic, name ∈ BaseSheet.lightColors.map Prod.fst ∧
      name ++ "-foreground" ∈ BaseSheet.lightColors.map Prod.fst := by decide
  have hsemantic : ∀ name ∈ BaseSheet.lightColors.map Prod.fst, IsSemantic name := by decide
  refine ⟨fun h => ?_, hsemantic color⟩
  have hmem : surface color ∈ semantic := List.contains_iff_mem.1 h
  simp only [surface] at hmem
  split at hmem
  · rename_i hending
    obtain ⟨front, hfront⟩ := List.isSuffixOf_iff_suffix.1 hending
    have hlength : color.length - "-foreground".toList.length = front.length := by
      rw [← String.length_toList, ← hfront, List.length_append, Nat.add_sub_cancel]
    rw [hlength, ← hfront, List.take_left' rfl] at hmem
    have hcolor : String.ofList front ++ "-foreground" = color := by
      rw [← String.toList_inj, String.toList_append, String.toList_ofList, hfront]
    exact hcolor ▸ (hdefined _ hmem).2
  · exact (hdefined color hmem).1

end Palette

namespace BaseSheet
open Block

/-- Among the lines of the block `:root` there is one for the property of a color. The block ends behind these
lines if the word closes what it opens. -/
structure DefinesAtRoot (sheet word color : String) : Prop where
  line : ∃ value, property word color ++ ": " ++ value ++ ";" ∈ definitions word lightColors
  block : ∃ after, sheet = opening ++ rootLines word ++ "\x7d\n" ++ after ∧
    (Contained word → after? [.curly] (rootLines word ++ "\x7d\n" ++ after).toList =
      some ("\n" ++ after).toList)

theorem definesAtRoot_render (word : String) {color : String} (h : Palette.IsSemantic color) :
    DefinesAtRoot (render word) word color := by
  obtain ⟨⟨_, value⟩, hmem, rfl⟩ := List.mem_map.1 (Palette.isSemantic_iff.1 h)
  obtain ⟨after, hafter⟩ := exists_render_eq word
  refine ⟨⟨value, List.mem_map_of_mem hmem⟩, after, hafter, fun hword => ?_⟩
  have hlines := after?_join_lines (List.cons_ne_nil Bracket.curly [])
    (contained_of_mem_definitions hword) ("\x7d\n" ++ after).toList
  have hbrace : ("\x7d\n" ++ after).toList = '\x7d' :: ("\n" ++ after).toList := by simp
  rw [String.append_assoc, String.toList_append, rootLines, hlines, hbrace,
    after?_of_closed? (rfl : closed? '\x7d' = some .curly)]
  rfl

end BaseSheet

theorem baseText_of_nowhere {options : Options} (h : Pass.namedBase? options = none) (space : Workspace) :
    Pass.baseText space none options = .ok (BaseSheet.render options.naming.variablePrefix) := by
  rw [Pass.baseText, Pass.baseFile?, h]
  rfl

/-- A color or a gradient either has no semantic color, and then the prefix leaves no trace in it, or it has one
custom property of a semantic color, and the sheet that a project without a base sheet of its own begins with
defines that property. -/
theorem semantic_property_defined {naming : Naming} {text : String} {resolution : Resolution}
    (h : naming.explain? text = some resolution) (htakes : resolution.strategy.takesColors)
    {options : Options} (hclass : options.naming.classPrefix = naming.classPrefix)
    (hbase : Pass.namedBase? options = none) (space : Workspace) :
    ∃ token sheet, Token.ofText? naming text = some token ∧
      Pass.baseText space none options = .ok sheet ∧
      sheet.toList = replaced "--vibe-".toList ("--" ++ naming.variablePrefix ++ "-").toList
        (BaseSheet.render "vibe").toList ∧
      (((∀ color, token.EndsInColor color → ¬Palette.IsSemantic color) ∧
          ∀ other, token.resolve? other = some resolution) ∨
        ∃ color before after, Palette.IsSemantic color ∧ token.EndsInColor color ∧
          resolution.declarations = before ++ Color.property naming.variablePrefix color ++ after ∧
          (∀ other, token.resolve? other = some { resolution with
            declarations := before ++ Color.property other.variablePrefix color ++ after }) ∧
          BaseSheet.DefinesAtRoot sheet naming.variablePrefix color) := by
  obtain ⟨token, htoken, hresolve⟩ := Option.bind_eq_some_iff.1 h
  obtain ⟨base, hparts⟩ := Token.exists_parts htoken
  have hword : options.naming.variablePrefix = naming.variablePrefix := by
    rw [Naming.variablePrefix, Naming.variablePrefix, hclass]
  have hsheet := baseText_of_nowhere hbase space
  rw [hword] at hsheet
  refine ⟨token, _, htoken, hsheet, (BaseSheet.replaced_render naming.variablePrefix).symm, ?_⟩
  cases Token.uniform_resolve? hparts with
  | unknown hnone =>
    rw [hnone] at hresolve
    cases hresolve
  | fixed found hplain hfound =>
    obtain rfl := Option.some.inj ((hfound naming).symm.trans hresolve)
    exact .inl ⟨hplain htakes, hfound⟩
  | varied found color before after _ hcolor hsemantic hfound =>
    obtain rfl := Option.some.inj ((hfound naming).symm.trans hresolve)
    exact .inr ⟨color, before, after, hsemantic, hcolor, rfl, hfound,
      BaseSheet.definesAtRoot_render naming.variablePrefix hsemantic⟩

theorem semantic_property_defined_gradient :
    let naming : Naming := { classPrefix := "my-app" }
    let text := "dark:my-app-from-foreground-foreground/50"
    let resolution : Resolution := {
      strategy := .gradient
      declarations := "--tw-gradient-from: " ++
        "color-mix(in srgb, var(--my-app-foreground-foreground) 50%, transparent); " ++
        "--tw-gradient-stops: var(--tw-gradient-from), var(--tw-gradient-to, rgb(255 255 255 / 0));" }
    let options : Options := { naming }
    (naming.explain? text = some resolution ∧ resolution.strategy.takesColors ∧
      options.naming.classPrefix = naming.classPrefix ∧ Pass.namedBase? options = none) ∧
    ∃ token sheet, Token.ofText? naming text = some token ∧
      Pass.baseText {} none options = .ok sheet ∧
      sheet.toList = replaced "--vibe-".toList ("--" ++ naming.variablePrefix ++ "-").toList
        (BaseSheet.render "vibe").toList ∧
      (((∀ color, token.EndsInColor color → ¬Palette.IsSemantic color) ∧
          ∀ other, token.resolve? other = some resolution) ∨
        ∃ color before after, Palette.IsSemantic color ∧ token.EndsInColor color ∧
          resolution.declarations = before ++ Color.property naming.variablePrefix color ++ after ∧
          (∀ other, token.resolve? other = some { resolution with
            declarations := before ++ Color.property other.variablePrefix color ++ after }) ∧
          BaseSheet.DefinesAtRoot sheet naming.variablePrefix color) := by
  intro naming text resolution options
  have hexplain : naming.explain? text = some resolution := by decide +kernel
  exact ⟨⟨hexplain, .inr rfl, rfl, rfl⟩, semantic_property_defined hexplain (.inr rfl) rfl rfl {}⟩

end UtilityCss
