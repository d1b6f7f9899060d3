import UtilityCss.Proofs.LegibleTokens
import UtilityCss.Proofs.SelectorLists
import UtilityCss.Proofs.Shapes

/-!
# Ancestors under the dark theme

The dark variant puts the class of the dark theme before every complex selector of a token, and only once,
however often the variant is named. The companion of the grid pattern has that class before its selectors by
itself. No other text of a rule brings it in, so that the ancestors of a rule can be counted.
-/

namespace UtilityCss.Selector
open Text Identifier

def variantText : Variant → String
  | .state pseudoClass => pseudoClass
  | .group pseudoClass => pseudoClass
  | .element pseudoElement => pseudoElement
  | .breakpoint _ => ""
  | .dark => ""

theorem ending_variantText {name : String} {variant : Variant}
    (h : Variant.ofName? name = some variant) : Ending (variantText variant) := by
  have hlevels : ∀ p ∈ Variant.named,
      levelAfter? 0 ((variantText p.2).toList.map .sign) = some 0 := by decide
  have hlevel := hlevels _ (mem_of_lookup_eq_some h)
  have hfits := (fits_of_ofName? h).2
  cases variant with
  | state pseudoClass => exact ⟨hfits, hlevel⟩
  | group pseudoClass => exact ⟨hfits, hlevel⟩
  | element pseudoElement => exact ⟨hfits, hlevel⟩
  | breakpoint minWidth => exact .empty
  | dark => exact .empty

theorem ofName?_eq_dark_iff {name : String} : Variant.ofName? name = some .dark ↔ name = "dark" := by
  constructor
  · intro h
    have honly : ∀ p ∈ Variant.named, p.2 = .dark → p.1 = "dark" := by decide
    exact honly _ (mem_of_lookup_eq_some h) rfl
  · rintro rfl
    decide

namespace Context

def texts (context : Context) : List String :=
  context.states ++ context.groupStates ++ [context.element]

theorem mem_addNew {s state : String} {states : List String} (h : s ∈ addNew state states) :
    s ∈ states ∨ s = state := by
  rw [addNew] at h
  split at h
  · exact .inl h
  · simpa using h

theorem mem_texts_add {context : Context} {variant : Variant} {s : String}
    (h : s ∈ (context.add variant).texts) : s ∈ context.texts ∨ s = variantText variant := by
  simp only [texts, List.mem_append, List.mem_singleton] at h ⊢
  cases variant with
  | state pseudoClass =>
    rcases h with (h | h) | h
    · rcases mem_addNew h with h | h
      · exact .inl (.inl (.inl h))
      · exact .inr h
    · exact .inl (.inl (.inr h))
    · exact .inl (.inr h)
  | group pseudoClass =>
    rcases h with (h | h) | h
    · exact .inl (.inl (.inl h))
    · rcases mem_addNew h with h | h
      · exact .inl (.inl (.inr h))
      · exact .inr h
    · exact .inl (.inr h)
  | element pseudoElement =>
    rcases h with h | h
    · exact .inl (.inl h)
    · exact .inr h
  | breakpoint minWidth => exact .inl h
  | dark => exact .inl h

theorem dark_add (context : Context) (variant : Variant) :
    (context.add variant).dark ↔ context.dark ∨ variant = .dark := by
  cases variant <;> simp [add]

theorem mem_texts_foldl {variants : List Variant} {context : Context} {s : String}
    (h : s ∈ (variants.foldl add context).texts) :
    s ∈ context.texts ∨ ∃ variant ∈ variants, s = variantText variant := by
  induction variants generalizing context with
  | nil => exact .inl h
  | cons variant variants ih =>
    rcases ih h with h | ⟨other, hother, hs⟩
    · rcases mem_texts_add h with h | hs
      · exact .inl h
      · exact .inr ⟨variant, List.mem_cons_self, hs⟩
    · exact .inr ⟨other, List.mem_cons_of_mem variant hother, hs⟩

theorem dark_foldl (variants : List Variant) (context : Context) :
    (variants.foldl add context).dark ↔ context.dark ∨ .dark ∈ variants := by
  induction variants generalizing context with
  | nil => simp
  | cons variant variants ih =>
    rw [List.foldl_cons, ih, dark_add, List.mem_cons, or_assoc, @eq_comm _ variant]

theorem ending_of_mem_texts (names : List String) {s : String} (h : s ∈ (ofNames names).texts) :
    Ending s := by
  rcases mem_texts_foldl h with h | ⟨variant, hvariant, rfl⟩
  · obtain rfl : s = "" := by simpa [texts] using h
    exact .empty
  · obtain ⟨name, -, hname⟩ := List.mem_filterMap.1 hvariant
    exact ending_variantText hname

theorem dark_ofNames (names : List String) : (ofNames names).dark ↔ "dark" ∈ names := by
  rw [ofNames, ofVariants, dark_foldl]
  simp [List.mem_filterMap, ofName?_eq_dark_iff]

theorem counts_group {name states : String} (hname : name.toList.getLast? = some 'p')
    (hstates : Ending states) : Counts "dark" 0 ("." ++ escape name ++ states ++ " ").toList := by
  have hspace : Ending " " := ⟨.ofCons rfl rfl, rfl⟩
  rw [String.append_assoc]
  refine .named ?_ ?_ (hstates.append hspace)
  · rintro rfl
    cases hname
  · intro heq
    have hlast := congrArg List.getLast? heq
    rw [List.getLast?_map, hname] at hlast
    exact absurd hlast (by decide)

theorem counts_ancestors {names : List String} {classPrefix ancestor : String}
    (h : ancestor ∈ (ofNames names).ancestors classPrefix) :
    Counts "dark" (if "dark" ∈ names then 1 else 0) ancestor.toList := by
  have hstates : Ending (String.join (ofNames names).groupStates) :=
    .join fun s hs => ending_of_mem_texts names (by simp [texts, hs])
  have hdark : Counts "dark" 1 ".dark ".toList := .ancestor (by decide) (by decide)
  obtain ⟨group, hgroup, rfl⟩ := mem_ancestors h
  have hcounts : Counts "dark" 0 group.toList := by
    rcases hgroup with rfl | ⟨name, hname, rfl⟩
    · exact .ending .empty
    · refine counts_group ?_ hstates
      rcases List.mem_pair.1 hname with rfl | rfl
      · decide
      · rw [String.toList_append, List.getLast?_append]
        rfl
  by_cases hnames : "dark" ∈ names
  · rw [if_pos ((dark_ofNames names).2 hnames), if_pos hnames, String.toList_append]
    exact hdark.append hcounts
  · rw [if_neg fun hd => hnames ((dark_ofNames names).1 hd), if_neg hnames]
    exact hcounts

theorem counts_parts {names : List String} {name suffix classPrefix part : String}
    (hname : name ≠ "") (hother : name.toList.map legible ≠ "dark".toList) (hsuffix : Ending suffix)
    (h : part ∈ (ofNames names).parts name suffix classPrefix) :
    Counts "dark" (if "dark" ∈ names then 1 else 0) part.toList := by
  obtain ⟨ancestor, hancestor, rfl⟩ := List.mem_map.1 h
  have hstates : Ending (String.join (ofNames names).states) :=
    .join fun s hs => ending_of_mem_texts names (by simp [texts, hs])
  have helement : Ending (ofNames names).element := ending_of_mem_texts names (by simp [texts])
  have hown := Counts.named hname hother ((hstates.append hsuffix).append helement)
  have hpart := (counts_ancestors hancestor).append hown
  rw [Nat.add_zero, ← String.toList_append] at hpart
  simpa only [String.append_assoc] using hpart

end Context

end UtilityCss.Selector

namespace UtilityCss
open Text Block Selector Identifier

theorem ending_of_mem_suffixes : ∀ suffix ∈ suffixes, Ending suffix := by
  unfold suffixes
  refine List.forall_mem_cons.2 ⟨.empty, ?_⟩
  refine List.forall_mem_cons.2 ⟨⟨tail_betweenChildren, by decide⟩, ?_⟩
  refine List.forall_mem_cons.2 ⟨⟨.ofCons rfl rfl, by decide⟩, ?_⟩
  exact List.forall_mem_cons.2 ⟨⟨.ofCons rfl rfl, by decide⟩, List.forall_mem_nil _⟩

theorem Companion.selector_rule {companion : Companion} (h : companion.around ≠ [])
    (parts : List String) (media : Option String) : (companion.rule parts media).selector =
      listed (parts.flatMap fun part =>
        companion.around.map fun around => around.1 ++ part ++ around.2) := by
  rw [List.flatMap_def, ← listed_map_listed, List.map_map]
  · rfl
  · intro selectors hselectors
    obtain ⟨part, -, rfl⟩ := List.mem_map.1 hselectors
    simpa using h

namespace Token

variable {naming : Naming} {text base : String} {token : Token} {resolution : Resolution}

theorem resolve?_dark (hname : token.name = "dark") (harbitrary : token.arbitrary = none) :
    token.resolve? naming = none := by
  have hkeyword : Keyword.declarations.lookup "dark" = none := by decide
  have hcomposite : Composite.named.lookup "dark" = none := by decide
  have hformula : Formula.declarations? "dark" = none := by decide
  have htransform : ∀ negative, Transform.property? negative "dark" = none := by decide
  have heffect : Effect.named.lookup "dark" = none := by decide
  have hlast : cutLast? '-' "dark" = none := by decide
  have hfirst : cutFirst? '-' "dark" = none := by decide
  have hgradient : after? "bg-gradient-to-" "dark" = none := by decide
  simp [resolve?, harbitrary, families, keyword?, scaled?, colored?, composite?, formula?, transform?,
    gradient?, effect?, hname, hkeyword, hcomposite, hformula, htransform, heffect, hlast, hfirst,
    hgradient]

theorem text_ne_dark (hparts : Parts naming text token base)
    (h : token.resolve? naming = some resolution) : text ≠ "dark" := by
  rintro rfl
  have hbase : base = "dark" := by
    have hsegments : segments "dark" = ["dark"] := by decide
    have hlast := congrArg List.getLast? (hsegments.symm.trans hparts.segments_eq)
    rw [List.getLast?_concat] at hlast
    exact (Option.some.inj hlast).symm
  obtain ⟨front, hfront, hspelled⟩ := exists_front hparts.name_eq
  have hdash : '-' ∉ front := by
    intro hmem
    have hdark : '-' ∈ base.toList := hspelled ▸ List.mem_append_left _ hmem
    rw [hbase] at hdark
    exact absurd hdark (by decide)
  obtain rfl : front = [] := by
    generalize token.negative = negative at hfront
    cases hfront with
    | plain => rfl
    | minus => simp at hdash
    | marked => simp [Naming.marker] at hdash
    | markedMinus => simp at hdash
    | minusMarked => simp at hdash
  have hname : token.name = "dark" := by
    rw [← hbase]
    exact (String.toList_inj.1 hspelled).symm
  have harbitrary : token.arbitrary = none := by
    rw [hparts.arbitrary_eq, hname]
    decide
  rw [resolve?_dark hname harbitrary] at h
  cases h

theorem counts_of_mem_parts (hparts : Parts naming text token base)
    (h : token.resolve? naming = some resolution) {suffix part : String} (hsuffix : Ending suffix)
    (hpart : part ∈ (Selector.parts token.text token.variants suffix naming.classPrefix).1) :
    Counts "dark" (if "dark" ∈ token.variants then 1 else 0) part.toList := by
  rw [hparts.text_eq] at hpart
  refine Context.counts_parts hparts.text_ne.1 (fun hlegible => ?_) hsuffix hpart
  -- A name that reads as the dark theme is it: the word holds no character that others are read as.
  have hclear : Clear "dark".toList := List.all_eq_true.1 (by decide)
  exact text_ne_dark hparts h (String.toList_inj.1 (eq_of_map_legible hclear hlegible.symm).symm)

theorem exists_part_of_ruleOf (hparts : Parts naming text token base)
    (h : token.resolve? naming = some resolution) {complex : List Piece}
    (hcomplex : complex ∈ complexes (token.ruleOf naming resolution).selector) :
    ∃ part ∈ (Selector.parts token.text token.variants resolution.suffix naming.classPrefix).1,
      complex = Selector.pieces part.toList ∨ complex = .sign ' ' :: Selector.pieces part.toList := by
  have hsuffix := ending_of_mem_suffixes _ (shaped_of_resolve? hparts h).suffix
  have hne := ((Context.sound_ofNames token.variants).parts hparts.text_ne.1 hsuffix.toTail
    naming.classPrefix).1
  rw [← hparts.text_eq] at hne
  refine mem_complexes_listed hne (fun part hpart => ?_) hcomplex
  exact (counts_of_mem_parts hparts h hsuffix hpart).toUndivided

theorem count_ruleOf (hparts : Parts naming text token base)
    (h : token.resolve? naming = some resolution) {complex : List Piece}
    (hcomplex : complex ∈ complexes (token.ruleOf naming resolution).selector) :
    ancestorCount "dark" complex = if "dark" ∈ token.variants then 1 else 0 := by
  have hsuffix := ending_of_mem_suffixes _ (shaped_of_resolve? hparts h).suffix
  obtain ⟨part, hpart, hcomplex⟩ := exists_part_of_ruleOf hparts h hcomplex
  exact (counts_of_mem_parts hparts h hsuffix hpart).of_complex hcomplex

theorem counts_companion (hparts : Parts naming text token base)
    (h : token.resolve? naming = some resolution) {companion : Companion}
    (hcompanion : companion ∈ resolution.companions) {around : String × String}
    (haround : around ∈ companion.around) {part : String}
    (hpart : part ∈ (Selector.parts token.text token.variants "" naming.classPrefix).1) :
    Counts "dark" ((if token.name = "bg-grid-pattern" then 1 else 0) +
      if "dark" ∈ token.variants then 1 else 0) (around.1 ++ part ++ around.2).toList := by
  have htable : ∀ p ∈ Effect.named, ∀ companion ∈ p.2.companions, ∀ around ∈ companion.around,
      around.1 = (if p.1 = "bg-grid-pattern" then ".dark " else "") ∧
        levelAfter? 0 (around.2.toList.map .sign) = some 0 := by decide
  obtain ⟨effect, hentry, hmem, -⟩ := effect_of_companion hparts h hcompanion
  obtain ⟨hbefore, hlevel⟩ := htable _ hentry companion hmem around haround
  have hafter : Ending around.2 :=
    ⟨(((fits_of_resolve hparts h).companions companion hcompanion).around around haround).2, hlevel⟩
  have hfirst : Counts "dark" (if token.name = "bg-grid-pattern" then 1 else 0) around.1.toList := by
    rw [hbefore]
    split
    · exact .ancestor (by decide) (by decide)
    · exact .ending .empty
  rw [String.toList_append, String.toList_append]
  exact (hfirst.append (counts_of_mem_parts hparts h .empty hpart)).append (.ending hafter)

theorem exists_part_of_companionRules (hparts : Parts naming text token base)
    (h : token.resolve? naming = some resolution) {rule : Rule}
    (hrule : rule ∈ token.companionRules naming resolution) {complex : List Piece}
    (hcomplex : complex ∈ complexes rule.selector) :
    ∃ companion ∈ resolution.companions, ∃ around ∈ companion.around,
      ∃ part ∈ (Selector.parts token.text token.variants "" naming.classPrefix).1,
        complex = Selector.pieces (around.1 ++ part ++ around.2).toList ∨
          complex = .sign ' ' :: Selector.pieces (around.1 ++ part ++ around.2).toList := by
  obtain ⟨companion, hcompanion, rfl⟩ := List.mem_map.1 hrule
  have haroundNe := ((fits_of_resolve hparts h).companions companion hcompanion).around_ne
  have hne := ((Context.sound_ofNames token.variants).parts hparts.text_ne.1 .empty
    naming.classPrefix).1
  rw [← hparts.text_eq] at hne
  rw [Companion.selector_rule haroundNe] at hcomplex
  have hlistNe : ((Selector.parts token.text token.variants "" naming.classPrefix).1.flatMap fun part =>
      companion.around.map fun around => around.1 ++ part ++ around.2) ≠ [] := by
    obtain ⟨part, hpart⟩ := List.exists_mem_of_ne_nil _ hne
    obtain ⟨around, haround⟩ := List.exists_mem_of_ne_nil _ haroundNe
    exact List.ne_nil_of_mem (List.mem_flatMap.2 ⟨part, hpart, List.mem_map_of_mem haround⟩)
  obtain ⟨s, hs, hcomplex⟩ := mem_complexes_listed hlistNe (fun s hs => by
    obtain ⟨part, hpart, hs⟩ := List.mem_flatMap.1 hs
    obtain ⟨around, haround, rfl⟩ := List.mem_map.1 hs
    exact (counts_companion hparts h hcompanion haround hpart).toUndivided) hcomplex
  obtain ⟨part, hpart, hs⟩ := List.mem_flatMap.1 hs
  obtain ⟨around, haround, rfl⟩ := List.mem_map.1 hs
  exact ⟨companion, hcompanion, around, haround, part, hpart, hcomplex⟩

theorem count_companionRules (hparts : Parts naming text token base)
    (h : token.resolve? naming = some resolution) {rule : Rule}
    (hrule : rule ∈ token.companionRules naming resolution) {complex : List Piece}
    (hcomplex : complex ∈ complexes rule.selector) :
    ancestorCount "dark" complex =
      (if token.name = "bg-grid-pattern" then 1 else 0) + if "dark" ∈ token.variants then 1 else 0 := by
  obtain ⟨companion, hcompanion, around, haround, part, hpart, hcomplex⟩ :=
    exists_part_of_companionRules hparts h hrule hcomplex
  exact (counts_companion hparts h hcompanion haround hpart).of_complex hcomplex

end Token

namespace Naming

/-- The ancestors of the dark theme in each complex selector of a rule: one for the dark variant, and one that
the companion of the grid pattern has by itself. Only where the two meet there is one too many. -/
theorem dark_ancestors {naming : Naming} {text : String} {rule : Rule} (h : rule ∈ naming.rules text) :
    ∃ token, Token.ofText? naming text = some token ∧ ∀ complex ∈ complexes rule.selector,
      (ancestorCount "dark" complex = if rule.isKeyframes then 0 else
        (if token.name = "bg-grid-pattern" ∧ naming.rule? text ≠ some rule then 1 else 0) +
          if "dark" ∈ token.variants then 1 else 0) ∧
      ((ancestorCount "dark" complex ≤ 1 ∧
          (¬rule.isKeyframes → "dark" ∈ token.variants → ancestorCount "dark" complex = 1)) ↔
        (rule.isKeyframes ∨ "dark" ∉ token.variants ∨ token.name ≠ "bg-grid-pattern" ∨
          naming.rule? text = some rule)) := by
  obtain ⟨token, base, resolution, hparts, hresolve, hplace⟩ := exists_place h
  refine ⟨token, hparts.ofText?_eq, fun complex hcomplex => ?_⟩
  have hcount : ancestorCount "dark" complex = if rule.isKeyframes then 0 else
      (if token.name = "bg-grid-pattern" ∧ naming.rule? text ≠ some rule then 1 else 0) +
        if "dark" ∈ token.variants then 1 else 0 := by
    cases hplace with
    | keyframes hrule hkeyframes =>
      obtain ⟨name, hname, hselector⟩ := (Token.animates_of_mem_keyframesRules hrule).selector
      rw [hselector] at hcomplex
      rw [if_pos hkeyframes, ancestorCount_of_quiet "dark" (.append (.ofList rfl) hname) hcomplex]
    | own hrule hkeyframes hown =>
      rw [hrule] at hcomplex
      rw [if_neg (by simp [hkeyframes]), if_neg (by simp [hown]), Nat.zero_add,
        Token.count_ruleOf hparts hresolve hcomplex]
    | companion hrule hkeyframes hother =>
      rw [if_neg (by simp [hkeyframes]), Token.count_companionRules hparts hresolve hrule hcomplex]
      simp [hother]
  refine ⟨hcount, ?_⟩
  rw [hcount]
  by_cases hkeyframes : rule.isKeyframes
  · simp [hkeyframes]
  · by_cases hdark : "dark" ∈ token.variants
    · by_cases hgrid : token.name = "bg-grid-pattern"
      · by_cases hsame : naming.rule? text = some rule <;> simp [hkeyframes, hdark, hgrid, hsame]
      · simp [hkeyframes, hdark, hgrid]
    · have hone : (if token.name = "bg-grid-pattern" ∧ naming.rule? text ≠ some rule then 1 else 0) ≤ 1 := by
        split <;> decide
      simpa [hkeyframes, hdark] using hone

theorem dark_ancestors_grouped :
    let naming : Naming := { classPrefix := "my-app" }
    let text := "group-hover:dark:md:my-app-hidden"
    let rule : Rule := {
      selector := ".dark .group:hover .group-hover\\:dark\\:md\\:my-app-hidden, " ++
        ".dark .my-app-group:hover .group-hover\\:dark\\:md\\:my-app-hidden"
      declarations := "display: none;"
      media := some "(min-width: 768px)" }
    rule ∈ naming.rules text ∧
      ∃ token, Token.ofText? naming text = some token ∧ ∀ complex ∈ complexes rule.selector,
        (ancestorCount "dark" complex = if rule.isKeyframes then 0 else
          (if token.name = "bg-grid-pattern" ∧ naming.rule? text ≠ some rule then 1 else 0) +
            if "dark" ∈ token.variants then 1 else 0) ∧
        ((ancestorCount "dark" complex ≤ 1 ∧
            (¬rule.isKeyframes → "dark" ∈ token.variants → ancestorCount "dark" complex = 1)) ↔
          (rule.isKeyframes ∨ "dark" ∉ token.variants ∨ token.name ≠ "bg-grid-pattern" ∨
            naming.rule? text = some rule)) := by
  intro naming text rule
  have hrule : rule ∈ naming.rules text := by decide
  exact ⟨hrule, dark_ancestors hrule⟩

/-- The dark grid under the dark variant is looked for under two such ancestors. -/
theorem dark_ancestors_doubled :
    let text := "dark:vibe-bg-grid-pattern"
    ¬∀ token, Token.ofText? {} text = some token → ∀ rule ∈ rules {} text,
      ∀ complex ∈ complexes rule.selector, ancestorCount "dark" complex ≤ 1 ∧
        (¬rule.isKeyframes → "dark" ∈ token.variants → ancestorCount "dark" complex = 1) := by
  intro text hclaim
  have hdoubled : ∃ rule ∈ rules {} text, ∃ complex ∈ complexes rule.selector,
      1 < ancestorCount "dark" complex := by decide +kernel
  obtain ⟨rule, hrule, complex, hcomplex, hcount⟩ := hdoubled
  obtain ⟨token, _, _, hparts, _⟩ := exists_resolution hrule
  exact absurd (hclaim token hparts.ofText?_eq rule hrule complex hcomplex).1 (Nat.not_le.2 hcount)

end Naming

end UtilityCss
