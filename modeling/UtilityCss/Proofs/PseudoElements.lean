import UtilityCss.Proofs.DarkAncestors

/-!
# Where a pseudo-element stands

The placeholder variant puts a pseudo-element behind the class of a token, and only once, however often the
variant is named and wherever it stands among the others. Nothing follows it in the token's own rule. The
companions of prose put descendants behind it.
-/

namespace UtilityCss.Selector
open Text Identifier

def placeholder : List Piece := "::placeholder".toList.map .sign

/-- What follows the pseudo-element in a complex selector, for each place where it stands. -/
def behindPlaceholder : List Piece → List (List Piece)
  | [] => []
  | p :: ps => (placeholder.isPrefixOf? (p :: ps)).toList ++ behindPlaceholder ps

def colonsApart : List Char → Bool
  | [] => true
  | c :: cs => (c != ':' || cs.head?.any (· != ':')) && colonsApart cs

theorem placeholder_eq :
    placeholder = .sign ':' :: .sign ':' :: "placeholder".toList.map .sign := by
  have htext : "::placeholder".toList = ':' :: ':' :: "placeholder".toList := rfl
  exact congrArg (List.map Piece.sign) htext

theorem behindPlaceholder_cons {p : Piece} (h : p ≠ .sign ':') (ps : List Piece) :
    behindPlaceholder (p :: ps) = behindPlaceholder ps := by
  have hfirst : (Piece.sign ':' == p) = false := beq_false_of_ne h.symm
  rw [behindPlaceholder, placeholder_eq, List.isPrefixOf?, hfirst]
  rfl

theorem behindPlaceholder_colon {p : Piece} (h : p ≠ .sign ':') (ps : List Piece) :
    behindPlaceholder (.sign ':' :: p :: ps) = behindPlaceholder (p :: ps) := by
  have hsecond : (Piece.sign ':' == p) = false := beq_false_of_ne h.symm
  rw [behindPlaceholder, placeholder_eq, List.isPrefixOf?, List.isPrefixOf?, hsecond]
  rfl

theorem behindPlaceholder_signs {cs : List Char} (h : colonsApart cs) (ps : List Piece) :
    behindPlaceholder (cs.map .sign ++ ps) = behindPlaceholder ps := by
  induction cs with
  | nil => rfl
  | cons c cs ih =>
    obtain ⟨hfirst, hrest⟩ := Bool.and_eq_true_iff.1 h
    rw [← ih hrest, List.map_cons, List.cons_append]
    by_cases hc : c = ':'
    · subst hc
      cases cs with
      | nil => cases hfirst
      | cons d cs =>
        apply behindPlaceholder_colon
        simpa using hfirst
    · apply behindPlaceholder_cons
      simpa using hc

theorem behindPlaceholder_placeholder (ps : List Piece) :
    behindPlaceholder (placeholder ++ ps) = ps :: behindPlaceholder ps := by
  have hcolons : colonsApart ":placeholder".toList := by decide
  have hrest : behindPlaceholder ((placeholder ++ ps).drop 1) = behindPlaceholder ps :=
    behindPlaceholder_signs hcolons ps
  rw [← hrest]
  rfl

theorem behindPlaceholder_of_notMem {ps : List Piece} (h : .sign ':' ∉ ps) :
    behindPlaceholder ps = [] := by
  induction ps with
  | nil => rfl
  | cons p ps ih =>
    obtain ⟨hp, hps⟩ := not_or.1 (mt List.mem_cons.2 h)
    rw [behindPlaceholder_cons (Ne.symm hp), ih hps]

/-- Text with whole classes in which the pseudo-element does not stand or begin. -/
structure Bare (cs : List Char) : Prop where
  stops : Stops cs
  written : ∃ names, Written cs names
  behind : ∀ ps, behindPlaceholder (pieces cs ++ ps) = behindPlaceholder ps

namespace Bare

theorem append {a b : List Char} (ha : Bare a) (hb : Bare b) : Bare (a ++ b) := by
  obtain ⟨names, hwritten⟩ := ha.written
  obtain ⟨others, hothers⟩ := hb.written
  refine ⟨stops_append ha.stops hb.stops, ⟨_, hwritten.append hothers hb.stops⟩, fun ps => ?_⟩
  rw [pieces_append hwritten hb.stops, List.append_assoc, ha.behind, hb.behind]

theorem ofTail {s : String} (h : Tail s) (hcolons : colonsApart s.toList) : Bare s.toList := by
  refine ⟨h.stops, ⟨[], h.written⟩, fun ps => ?_⟩
  rw [pieces_of_quiet h.quiet, behindPlaceholder_signs hcolons]

theorem empty : Bare "".toList := ofTail .empty rfl

theorem space : Bare " ".toList := ofTail (.ofCons rfl rfl) rfl

theorem join {texts : List String} (h : ∀ s ∈ texts, Bare s.toList) : Bare (String.join texts).toList := by
  induction texts with
  | nil => exact empty
  | cons s texts ih =>
    rw [String.join_cons, String.toList_append]
    exact (h s List.mem_cons_self).append (ih fun t ht => h t (List.mem_cons_of_mem s ht))

theorem named {name after : String} (hname : name ≠ "") (h : Bare after.toList) :
    Bare ("." ++ escape name ++ after).toList := by
  obtain ⟨names, hwritten⟩ := h.written
  rw [dot_escape_append]
  refine ⟨stops_cons (by decide) (by decide) _, ⟨_, .named (by simpa using hname) h.stops hwritten⟩,
    fun ps => ?_⟩
  rw [pieces_named name.toList h.stops, List.cons_append, behindPlaceholder_cons (by simp), h.behind]

theorem dark : Bare ".dark ".toList := by
  have hescape : "." ++ escape "dark" ++ " " = ".dark " := by decide
  have hname : "dark" ≠ "" := by decide
  have hbare := named hname space
  rwa [hescape] at hbare

end Bare

namespace Context

theorem mem_states_add {context : Context} {variant : Variant} {s : String}
    (h : s ∈ (context.add variant).states ++ (context.add variant).groupStates) :
    s ∈ context.states ++ context.groupStates ∨ variant = .state s ∨ variant = .group s := by
  rw [List.mem_append] at h ⊢
  cases variant with
  | state pseudoClass =>
    rcases h with h | h
    · rcases mem_addNew h with h | rfl
      · exact .inl (.inl h)
      · exact .inr (.inl rfl)
    · exact .inl (.inr h)
  | group pseudoClass =>
    rcases h with h | h
    · exact .inl (.inl h)
    · rcases mem_addNew h with h | rfl
      · exact .inl (.inr h)
      · exact .inr (.inr rfl)
  | element pseudoElement => exact .inl h
  | breakpoint minWidth => exact .inl h
  | dark => exact .inl h

theorem mem_states_foldl {variants : List Variant} {context : Context} {s : String}
    (h : s ∈ (variants.foldl add context).states ++ (variants.foldl add context).groupStates) :
    s ∈ context.states ++ context.groupStates ∨ .state s ∈ variants ∨ .group s ∈ variants := by
  induction variants generalizing context with
  | nil => exact .inl h
  | cons variant variants ih =>
    rcases ih h with h | h | h
    · rcases mem_states_add h with h | rfl | rfl
      · exact .inl h
      · exact .inr (.inl List.mem_cons_self)
      · exact .inr (.inr List.mem_cons_self)
    · exact .inr (.inl (List.mem_cons_of_mem variant h))
    · exact .inr (.inr (List.mem_cons_of_mem variant h))

theorem bare_of_mem_states (names : List String) {s : String}
    (h : s ∈ (ofNames names).states ++ (ofNames names).groupStates) : Bare s.toList := by
  have hclasses : ∀ p ∈ Variant.named,
      p.2 = .element (variantText p.2) ∨ colonsApart (variantText p.2).toList := by decide
  have hofName {name : String} {variant : Variant} (hname : Variant.ofName? name = some variant)
      (helement : variant ≠ .element (variantText variant)) : Bare (variantText variant).toList := by
    have hcolons := (hclasses _ (mem_of_lookup_eq_some hname)).resolve_left helement
    exact .ofTail (ending_variantText hname).toTail hcolons
  rcases mem_states_foldl h with h | h | h
  · cases h
  · obtain ⟨name, -, hname⟩ := List.mem_filterMap.1 h
    exact hofName hname (by simp)
  · obtain ⟨name, -, hname⟩ := List.mem_filterMap.1 h
    exact hofName hname (by simp)

theorem element_foldl {element : String} {variants : List Variant}
    (h : ∀ other, .element other ∈ variants → other = element) (context : Context) :
    (variants.foldl add context).element =
      if .element element ∈ variants then element else context.element := by
  induction variants generalizing context with
  | nil => rfl
  | cons variant variants ih =>
    rw [List.foldl_cons, ih fun other hother => h other (List.mem_cons_of_mem variant hother)]
    by_cases hlater : .element element ∈ variants
    · rw [if_pos hlater, if_pos (List.mem_cons_of_mem variant hlater)]
    · rw [if_neg hlater]
      cases variant with
      | element other =>
        obtain rfl := h other List.mem_cons_self
        rw [if_pos List.mem_cons_self]
        rfl
      | state pseudoClass => simp [add, hlater]
      | group pseudoClass => simp [add, hlater]
      | breakpoint minWidth => simp [add, hlater]
      | dark => simp [add, hlater]

theorem element_ofNames (names : List String) :
    (ofNames names).element = if "placeholder" ∈ names then "::placeholder" else "" := by
  have hnamed : ∀ p ∈ Variant.named, p.2 = .element (variantText p.2) →
      p.1 = "placeholder" ∧ variantText p.2 = "::placeholder" := by decide
  have honly {name element : String} (h : Variant.ofName? name = some (.element element)) :
      name = "placeholder" ∧ element = "::placeholder" := hnamed _ (mem_of_lookup_eq_some h) rfl
  have hsole : ∀ other, .element other ∈ names.filterMap Variant.ofName? → other = "::placeholder" := by
    intro other hother
    obtain ⟨name, -, hname⟩ := List.mem_filterMap.1 hother
    exact (honly hname).2
  have hmem : .element "::placeholder" ∈ names.filterMap Variant.ofName? ↔ "placeholder" ∈ names := by
    rw [List.mem_filterMap]
    constructor
    · intro ⟨name, hmem, hname⟩
      rwa [← (honly hname).1]
    · exact fun hmem => ⟨"placeholder", hmem, by decide⟩
  rw [ofNames, ofVariants, element_foldl hsole]
  simp only [hmem]

theorem bare_ancestors {names : List String} {classPrefix ancestor : String}
    (h : ancestor ∈ (ofNames names).ancestors classPrefix) : Bare ancestor.toList := by
  have hstates : Bare (String.join (ofNames names).groupStates ++ " ").toList := by
    rw [String.toList_append]
    refine Bare.append (.join fun s hs => ?_) .space
    exact bare_of_mem_states names (List.mem_append_right _ hs)
  obtain ⟨group, hgroup, rfl⟩ := mem_ancestors h
  have hbare : Bare group.toList := by
    rcases hgroup with rfl | ⟨name, hname, rfl⟩
    · exact .empty
    · rw [String.append_assoc]
      exact .named (ne_empty_of_mem_groups hname) hstates
  split
  · rw [String.toList_append]
    exact Bare.dark.append hbare
  · exact hbare

theorem exists_bare_of_mem_parts {names : List String} {name suffix classPrefix part : String}
    (hname : name ≠ "") (hsuffix : Bare suffix.toList)
    (h : part ∈ (ofNames names).parts name suffix classPrefix) :
    ∃ front, Bare front ∧
      part.toList = front ++ (if "placeholder" ∈ names then "::placeholder" else "").toList := by
  obtain ⟨ancestor, hancestor, rfl⟩ := List.mem_map.1 h
  have hstates : Bare (String.join (ofNames names).states).toList :=
    .join fun s hs => bare_of_mem_states names (List.mem_append_left _ hs)
  have hown : Bare ("." ++ escape name ++ (String.join (ofNames names).states ++ suffix)).toList := by
    refine .named hname ?_
    rw [String.toList_append]
    exact hstates.append hsuffix
  refine ⟨_, (bare_ancestors hancestor).append hown, ?_⟩
  rw [element_ofNames]
  simp only [String.toList_append, List.append_assoc]

end Context

end UtilityCss.Selector

namespace UtilityCss
open Text Selector Identifier

namespace Token

variable {naming : Naming} {text base : String} {token : Token} {resolution : Resolution}

theorem behind_of_mem_parts (hparts : Parts naming text token base) {suffix before after part : String}
    (hsuffix : Bare suffix.toList) (hbefore : Bare before.toList) (hafter : Tail after)
    (hcolons : colonsApart after.toList)
    (hpart : part ∈ (Selector.parts token.text token.variants suffix naming.classPrefix).1) :
    behindPlaceholder (Selector.pieces (before ++ part ++ after).toList) =
      if "placeholder" ∈ token.variants then [after.toList.map .sign] else [] := by
  rw [hparts.text_eq] at hpart
  obtain ⟨front, hfront, heq⟩ := Context.exists_bare_of_mem_parts hparts.text_ne.1 hsuffix hpart
  have hlead := hbefore.append hfront
  obtain ⟨names, hwritten⟩ := hlead.written
  have hend : behindPlaceholder (after.toList.map .sign) = [] := by
    simpa [behindPlaceholder] using behindPlaceholder_signs hcolons []
  rw [String.toList_append, String.toList_append, heq, ← List.append_assoc, List.append_assoc]
  split
  · have helement : Tail ("::placeholder" ++ after) := .append (.ofCons rfl rfl) hafter
    rw [← String.toList_append, pieces_append hwritten helement.stops, hlead.behind,
      pieces_of_quiet helement.quiet, String.toList_append, List.map_append]
    exact (behindPlaceholder_placeholder _).trans (by rw [hend])
  · rw [← String.toList_append, String.empty_append, pieces_append hwritten hafter.stops, hlead.behind,
      pieces_of_quiet hafter.quiet, hend]

theorem behindPlaceholder_of_complex {complex ps : List Piece}
    (h : complex = ps ∨ complex = .sign ' ' :: ps) :
    behindPlaceholder complex = behindPlaceholder ps := by
  rcases h with rfl | rfl
  · rfl
  · exact behindPlaceholder_cons (by simp) ps

theorem behind_keyframesRules {rule : Rule} (hrule : rule ∈ resolution.keyframesRules)
    {complex : List Piece} (hcomplex : complex ∈ complexes rule.selector) :
    behindPlaceholder complex = [] := by
  have hnames : ∀ p ∈ Effect.animations, ':' ∉ ("@keyframes " ++ p.1).toList := by decide
  have hquiet : MadeOf isQuiet rule.selector := by
    obtain ⟨name, hname, hselector⟩ := (animates_of_mem_keyframesRules hrule).selector
    rw [hselector]
    exact .append (.ofList rfl) hname
  obtain ⟨name, -, hanimation⟩ := List.mem_filterMap.1 hrule
  obtain ⟨stops, hlookup, rfl⟩ := Option.map_eq_some_iff.1 hanimation
  refine behindPlaceholder_of_notMem fun hcolon => ?_
  have hmem := mem_of_mem_itemsAt hcomplex _ hcolon
  rw [pieces_of_quiet hquiet] at hmem
  obtain ⟨c, hc, hsign⟩ := List.mem_map.1 hmem
  obtain rfl := Piece.sign.inj hsign
  exact hnames _ (mem_of_lookup_eq_some hlookup) hc

theorem behind_ruleOf (hparts : Parts naming text token base)
    (h : token.resolve? naming = some resolution) {complex : List Piece}
    (hcomplex : complex ∈ complexes (token.ruleOf naming resolution).selector) :
    behindPlaceholder complex = if "placeholder" ∈ token.variants then [[]] else [] := by
  have hsuffixes : ∀ suffix ∈ suffixes, colonsApart suffix.toList := by decide
  have hmem := (shaped_of_resolve? hparts h).suffix
  have hsuffix : Bare resolution.suffix.toList :=
    .ofTail (ending_of_mem_suffixes _ hmem).toTail (hsuffixes _ hmem)
  obtain ⟨part, hpart, hcomplex⟩ := exists_part_of_ruleOf hparts h hcomplex
  have hbehind := behind_of_mem_parts hparts hsuffix .empty .empty rfl hpart
  rw [String.empty_append, String.append_empty] at hbehind
  rw [behindPlaceholder_of_complex hcomplex, hbehind]
  rfl

theorem behind_companionRules (hparts : Parts naming text token base)
    (h : token.resolve? naming = some resolution) {rule : Rule}
    (hrule : rule ∈ token.companionRules naming resolution) {complex : List Piece}
    (hcomplex : complex ∈ complexes rule.selector) :
    ∃ after, (after = [] ↔ token.name ∉ ["prose", "prose-invert"]) ∧
      behindPlaceholder complex = if "placeholder" ∈ token.variants then [after] else [] := by
  have htable : ∀ p ∈ Effect.named, ∀ companion ∈ p.2.companions, ∀ around ∈ companion.around,
      (around.1 = "" ∨ around.1 = ".dark ") ∧ colonsApart around.2.toList ∧
        (around.2 = "" ↔ p.1 ∉ ["prose", "prose-invert"]) := by decide
  obtain ⟨companion, hcompanion, around, haround, part, hpart, hcomplex⟩ :=
    exists_part_of_companionRules hparts h hrule hcomplex
  have hafter := (((fits_of_resolve hparts h).companions companion hcompanion).around around haround).2
  obtain ⟨effect, hentry, hmem, -⟩ := effect_of_companion hparts h hcompanion
  obtain ⟨hbefore, hcolons, hprose⟩ := htable _ hentry companion hmem around haround
  have hlead : Bare around.1.toList := by
    rcases hbefore with hbefore | hbefore
    · rw [hbefore]
      exact .empty
    · rw [hbefore]
      exact Bare.dark
  refine ⟨around.2.toList.map .sign, ?_, ?_⟩
  · rw [List.map_eq_nil_iff, String.toList_eq_nil_iff, hprose]
  · rw [behindPlaceholder_of_complex hcomplex, behind_of_mem_parts hparts .empty hlead hafter hcolons hpart]

end Token

namespace Naming

/-- The pseudo-element stands once in each complex selector of a rule under the placeholder variant, and not at
all without it. Something follows it in the companion rules of prose and nowhere else. -/
theorem behind_placeholder {naming : Naming} {text : String} {rule : Rule} (h : rule ∈ naming.rules text) :
    ∃ token, Token.ofText? naming text = some token ∧ ∀ complex ∈ complexes rule.selector,
      (behindPlaceholder complex).length =
          (if rule.isKeyframes ∨ "placeholder" ∉ token.variants then 0 else 1) ∧
      ((∀ after ∈ behindPlaceholder complex, after = []) ↔
        (rule.isKeyframes ∨ "placeholder" ∉ token.variants ∨ token.name ∉ ["prose", "prose-invert"] ∨
          naming.rule? text = some rule)) := by
  obtain ⟨token, base, resolution, hparts, hresolve, hplace⟩ := exists_place h
  refine ⟨token, hparts.ofText?_eq, fun complex hcomplex => ?_⟩
  cases hplace with
  | keyframes hrule hkeyframes =>
    rw [Token.behind_keyframesRules hrule hcomplex]
    simp [hkeyframes]
  | own hrule hkeyframes hown =>
    rw [hrule] at hcomplex
    rw [Token.behind_ruleOf hparts hresolve hcomplex]
    by_cases hplaceholder : "placeholder" ∈ token.variants <;> simp [hkeyframes, hplaceholder, hown]
  | companion hrule hkeyframes hother =>
    obtain ⟨after, hafter, hbehind⟩ := Token.behind_companionRules hparts hresolve hrule hcomplex
    rw [hbehind, ← hafter]
    by_cases hplaceholder : "placeholder" ∈ token.variants <;> simp [hkeyframes, hplaceholder, hother]

theorem behind_placeholder_spaced :
    let naming : Naming := { classPrefix := "my-app" }
    let text := "placeholder:focus:placeholder:my-app-divide-x"
    let rule : Rule := {
      selector := ".placeholder\\:focus\\:placeholder\\:my-app-divide-x:focus > " ++
        ":not([hidden]) ~ :not([hidden])::placeholder"
      declarations := "border-right-width: 0px; border-left-width: 1px;" }
    rule ∈ naming.rules text ∧
      ∃ token, Token.ofText? naming text = some token ∧ ∀ complex ∈ complexes rule.selector,
        (behindPlaceholder complex).length =
            (if rule.isKeyframes ∨ "placeholder" ∉ token.variants then 0 else 1) ∧
        ((∀ after ∈ behindPlaceholder complex, after = []) ↔
          (rule.isKeyframes ∨ "placeholder" ∉ token.variants ∨ token.name ∉ ["prose", "prose-invert"] ∨
            naming.rule? text = some rule)) := by
  intro naming text rule
  have hrule : rule ∈ naming.rules text := by decide
  exact ⟨hrule, behind_placeholder hrule⟩

/-- The companions of prose look for descendants of the pseudo-element, which has none. -/
theorem behind_placeholder_prose :
    ¬∀ rule ∈ rules {} "placeholder:vibe-prose-invert", ∀ complex ∈ complexes rule.selector,
      (behindPlaceholder complex).length ≤ 1 ∧ ∀ after ∈ behindPlaceholder complex, after = [] := by
  intro hclaim
  have hfollowed : ∃ rule ∈ rules {} "placeholder:vibe-prose-invert", ∃ complex ∈ complexes rule.selector,
      ∃ after ∈ behindPlaceholder complex, after ≠ [] := by decide +kernel
  obtain ⟨rule, hrule, complex, hcomplex, after, hafter, hne⟩ := hfollowed
  exact hne ((hclaim rule hrule complex hcomplex).2 after hafter)

end Naming

end UtilityCss
