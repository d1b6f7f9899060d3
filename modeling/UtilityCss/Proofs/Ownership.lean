import UtilityCss.Proofs.LegibleTokens
import UtilityCss.Stylesheet

/-!
# Every rule has one token

The selector of a rule names its token, so that rules of distinct tokens differ unless they are keyframes
rules. The name is read up to null characters; where it leaves two tokens apart only by these, their
declarations differ.
-/

namespace UtilityCss
open Text Identifier

theorem exists_declare {properties : List String} (hne : properties ≠ [])
    (hp : ∀ property ∈ properties, NameText property) (value : String) :
    ∃ property after, ':' ∉ property ∧ (declare properties value).toList =
      property ++ ':' :: ((' ' :: value.toList) ++ ';' :: after) := by
  obtain ⟨property, properties, rfl⟩ := List.exists_cons_of_ne_nil hne
  have hcolon : ':' ∉ property.toList :=
    fun hmem => absurd (hp property List.mem_cons_self _ hmem) (by decide)
  cases properties with
  | nil => exact ⟨property.toList, [], hcolon, by simp [declare]⟩
  | cons next properties =>
    refine ⟨property.toList, ' ' :: (declare (next :: properties) value).toList, hcolon, ?_⟩
    simp [declare]

theorem eq_of_declare_eq {properties others : List String} {value other : String}
    (hne : properties ≠ []) (hne' : others ≠ [])
    (hp : ∀ property ∈ properties, NameText property) (hp' : ∀ property ∈ others, NameText property)
    (hv : ';' ∉ value.toList) (hv' : ';' ∉ other.toList)
    (h : declare properties value = declare others other) : value = other := by
  obtain ⟨property, after, hcolon, htext⟩ := exists_declare hne hp value
  obtain ⟨property', after', hcolon', htext'⟩ := exists_declare hne' hp' other
  rw [h, htext'] at htext
  have hvalues := (append_cons_inj hcolon' hcolon htext).2
  have hcut := (append_cons_inj (by simpa using hv') (by simpa using hv) hvalues).1
  exact String.toList_inj.1 (List.cons.inj hcut).2.symm

theorem Selector.escape_eq_of_legible_eq {name other : String}
    (h : name.toList.map legible = other.toList.map legible) : escape name = escape other := by
  have hchar (c : Char) : escapeChar (legible c) = escapeChar c := by
    by_cases hc : c = '\x00'
    · subst hc
      decide
    · rw [legible_of_ne hc]
  have hstart (c : Char) : escapeStart (legible c) = escapeStart c := by
    by_cases hc : c = '\x00'
    · subst hc
      decide
    · rw [legible_of_ne hc]
  have hflat (cs : List Char) : (cs.map legible).flatMap escapeChar = cs.flatMap escapeChar := by
    rw [List.flatMap_map]
    exact List.flatMap_congr fun c _ => hchar c
  have hchars (cs : List Char) : escapeChars (cs.map legible) = escapeChars cs := by
    fun_cases escapeChars cs with
    | case1 => rfl
    | case2 => rfl
    | case3 c cs =>
      rw [← hstart c, ← hflat cs]
      rfl
    | case4 c cs hlone hdash =>
      rw [← hstart c, ← hflat cs, List.map_cons, escapeChars]
      · intro hc hcs
        exact hlone ((legible_eq_iff (by decide)).1 hc) (by simpa using hcs)
      · intro d ds hc hcs
        cases cs with
        | nil => cases hcs
        | cons e es => exact hdash e es ((legible_eq_iff (by decide)).1 hc) rfl
  rw [escape, escape, ← hchars name.toList, h, hchars]

namespace Token

variable {naming : Naming} {token token' : Token} {resolution resolution' : Resolution}
  {text other base base' key value : String}

theorem Bracketing.rules_eq (h : Bracketing token resolution key value) :
    token.rules naming resolution = [token.ruleOf naming resolution] := by
  obtain ⟨properties, -, -, rfl⟩ := h.resolution
  rfl

theorem Mirrored.declarations_ne (h : Mirrored naming token token' resolution resolution') :
    resolution.declarations ≠ resolution'.declarations := by
  obtain ⟨key, value, key', value', hb, hb', hlength⟩ := h.bracketings
  obtain ⟨properties, hne, hp, rfl⟩ := hb.resolution
  obtain ⟨others, hne', hp', rfl⟩ := hb'.resolution
  have hv := Bracketed.not_mem_of_isAllowed hb.allowed (c := ';') (by decide)
  have hv' := Bracketed.not_mem_of_isAllowed hb'.allowed (c := ';') (by decide)
  intro heq
  rw [eq_of_declare_eq hne hne' hp hp' hv hv' heq] at hlength
  exact Nat.lt_irrefl _ hlength

theorem Mirrored.rules_eq (h : Mirrored naming token token' resolution resolution') :
    token.rules naming resolution = [token.ruleOf naming resolution] ∧
      token'.rules naming resolution' = [token'.ruleOf naming resolution'] := by
  obtain ⟨key, value, key', value', hb, hb', -⟩ := h.bracketings
  exact ⟨hb.rules_eq, hb'.rules_eq⟩

theorem Mirrored.selector_eq (h : Mirrored naming token token' resolution resolution')
    (hparts : Parts naming text token base) (hparts' : Parts naming other token' base')
    (hlegible : text.toList.map legible = other.toList.map legible) :
    (token.ruleOf naming resolution).selector = (token'.ruleOf naming resolution').selector := by
  obtain ⟨key, value, key', value', hb, hb', -⟩ := h.bracketings
  obtain ⟨properties, -, -, rfl⟩ := hb.resolution
  obtain ⟨others, -, -, rfl⟩ := hb'.resolution
  have hvariants := (parts_of_legible_eq hparts hparts' hlegible).1
  have hescape := Selector.escape_eq_of_legible_eq hlegible
  simp only [ruleOf, Selector.parts, Selector.Context.parts, hparts.text_eq, hparts'.text_eq,
    hvariants, hescape]

end Token

namespace Naming

variable {naming : Naming} {text other : String}

theorem legible_eq_of_selector_eq {rule rule' : Rule} (h : rule ∈ naming.rules text)
    (h' : rule' ∈ naming.rules other) (hstyle : rule.isKeyframes = false)
    (hstyle' : rule'.isKeyframes = false) (heq : rule.selector = rule'.selector) :
    text.toList.map legible = other.toList.map legible := by
  have hselects := ((animates_or_styles h).resolve_left fun ha =>
    absurd ha.isKeyframes (by simp [hstyle])).selector
  have hselects' := ((animates_or_styles h').resolve_left fun ha =>
    absurd ha.isKeyframes (by simp [hstyle'])).selector
  rw [← heq] at hselects'
  exact hselects.legible_eq hselects'

theorem mem_rules_of_rule? {own : Rule} (h : naming.rule? text = some own) :
    own ∈ naming.rules text ∧ own.isKeyframes = false := by
  have hown := List.find?_some h
  exact ⟨List.mem_of_find?_eq_some h, by simpa using hown⟩

theorem own_eq_of_rules_eq {own rule : Rule} (h : naming.rule? text = some own)
    (hrules : naming.rules text = [rule]) : own = rule := by
  have hmem := (mem_rules_of_rule? h).1
  rw [hrules] at hmem
  exact List.mem_singleton.1 hmem

theorem sole_rules_of_legible_eq {rule rule' : Rule} (h : rule ∈ naming.rules text)
    (h' : rule' ∈ naming.rules other) (hne : text ≠ other)
    (hlegible : text.toList.map legible = other.toList.map legible) :
    ∃ own own', naming.rules text = [own] ∧ naming.rules other = [own'] ∧
      own.selector = own'.selector ∧ own.declarations ≠ own'.declarations ∧
        naming.permissive ∧ '\x00' ∈ naming.classPrefix.toList := by
  obtain ⟨token, base, resolution, hparts, hresolve, hrules⟩ := exists_resolution h
  obtain ⟨token', base', resolution', hparts', hresolve', hrules'⟩ := exists_resolution h'
  refine ⟨token.ruleOf naming resolution, token'.ruleOf naming resolution', ?_⟩
  rcases Token.mirrored_of_legible_eq hparts hparts' hresolve hresolve' hne hlegible with
      hmirror | hmirror
  · exact ⟨hrules.trans hmirror.rules_eq.1, hrules'.trans hmirror.rules_eq.2,
      hmirror.selector_eq hparts hparts' hlegible, hmirror.declarations_ne, hmirror.permissive,
      hmirror.null⟩
  · exact ⟨hrules.trans hmirror.rules_eq.2, hrules'.trans hmirror.rules_eq.1,
      (hmirror.selector_eq hparts' hparts hlegible.symm).symm, hmirror.declarations_ne.symm,
      hmirror.permissive, hmirror.null⟩

theorem isKeyframes_of_shared {rule : Rule} (hne : text ≠ other) (h : rule ∈ naming.rules text)
    (h' : rule ∈ naming.rules other) : rule.isKeyframes := by
  by_contra hstyle
  rw [Bool.not_eq_true] at hstyle
  have hlegible := legible_eq_of_selector_eq h h' hstyle hstyle rfl
  obtain ⟨own, own', hrules, hrules', -, hdeclarations, -⟩ :=
    sole_rules_of_legible_eq h h' hne hlegible
  rw [hrules, List.mem_singleton] at h
  rw [hrules', List.mem_singleton] at h'
  exact hdeclarations (by rw [← h, h'])

/-- Distinct tokens share keyframes rules at most, so that every other rule of a style sheet comes from one
token of the set. The own rules of two tokens have one selector exactly when the tokens read alike; then the
prefix, which may be left out, holds a null character, and the declarations still differ. -/
theorem tokens_own_their_rules (naming : Naming) :
    (∀ text other, text ≠ other → ∀ rule ∈ naming.rules text, rule ∈ naming.rules other →
      rule.isKeyframes) ∧
    (∀ text other own own', text ≠ other → naming.rule? text = some own →
      naming.rule? other = some own' →
        (own.selector = own'.selector ↔
          text.toList.map legible = other.toList.map legible) ∧
        (own.selector = own'.selector → naming.permissive ∧ '\x00' ∈ naming.classPrefix.toList ∧
          own.declarations ≠ own'.declarations)) ∧
    (∀ tokens, ∀ rule ∈ Stylesheet.rulesOf naming tokens, rule.isKeyframes = false →
      ∃! text, text ∈ tokens ∧ rule ∈ naming.rules text) := by
  refine ⟨fun text other hne rule h h' => isKeyframes_of_shared hne h h', ?_, ?_⟩
  · intro text other own own' hne h h'
    obtain ⟨hmem, hstyle⟩ := mem_rules_of_rule? h
    obtain ⟨hmem', hstyle'⟩ := mem_rules_of_rule? h'
    have hreads := legible_eq_of_selector_eq hmem hmem' hstyle hstyle'
    refine ⟨⟨hreads, fun hlegible => ?_⟩, fun hselector => ?_⟩
    · obtain ⟨rule, rule', hrules, hrules', hselector, -⟩ :=
        sole_rules_of_legible_eq hmem hmem' hne hlegible
      rwa [own_eq_of_rules_eq h hrules, own_eq_of_rules_eq h' hrules']
    · obtain ⟨rule, rule', hrules, hrules', -, hdeclarations, hpermissive, hnull⟩ :=
        sole_rules_of_legible_eq hmem hmem' hne (hreads hselector)
      rw [own_eq_of_rules_eq h hrules, own_eq_of_rules_eq h' hrules']
      exact ⟨hpermissive, hnull, hdeclarations⟩
  · intro tokens rule hrule hstyle
    rw [Stylesheet.rulesOf, List.mem_eraseDups, List.mem_filter, List.mem_flatMap] at hrule
    obtain ⟨⟨text, htext, hmem⟩, -⟩ := hrule
    refine ⟨text, ⟨mem_orderedSet.1 htext, hmem⟩, ?_⟩
    rintro other ⟨-, hother⟩
    by_contra hne
    have hkeyframes := isKeyframes_of_shared hne hother hmem
    rw [hstyle] at hkeyframes
    cases hkeyframes

def nullNaming : Naming := { classPrefix := "w-[\x00]", permissive := true }

theorem own_rules_differ_in_declarations :
    nullNaming.permissive ∧ '\x00' ∈ nullNaming.classPrefix.toList ∧
      "width: 3px;" ≠ "width: \uFFFD]-w-[3px;" ∧
        ∃! text, text ∈ ["w-[\x00]-w-[3px]", "w-[\uFFFD]-w-[3px]"] ∧
          { selector := ".w-\\[\uFFFD\\]-w-\\[3px\\]", declarations := "width: 3px;" } ∈
            nullNaming.rules text := by
  obtain ⟨-, hown, htokens⟩ := tokens_own_their_rules nullNaming
  have h := hown "w-[\x00]-w-[3px]" "w-[\uFFFD]-w-[3px]"
    { selector := ".w-\\[\uFFFD\\]-w-\\[3px\\]", declarations := "width: 3px;" }
    { selector := ".w-\\[\uFFFD\\]-w-\\[3px\\]", declarations := "width: \uFFFD]-w-[3px;" }
    (by decide) (by decide +kernel) (by decide +kernel)
  obtain ⟨hpermissive, hnull, hdeclarations⟩ := h.2 rfl
  exact ⟨hpermissive, hnull, hdeclarations, htokens _ _ (by decide +kernel) (by decide)⟩

/-- The own rules of two tokens can have one selector. -/
theorem not_all_own_selectors_differ :
    ¬∀ (naming : Naming) (text other : String), text ≠ other → naming.recognizes text →
      naming.recognizes other →
        (∀ rule ∈ naming.rules text, rule ∈ naming.rules other → rule.isKeyframes) ∧
          ∀ own own', naming.rule? text = some own → naming.rule? other = some own' →
            own.selector ≠ own'.selector := by
  intro h
  have hdiffer := (h nullNaming "w-[\x00]-w-[3px]" "w-[\uFFFD]-w-[3px]" (by decide)
    (by decide +kernel) (by decide +kernel)).2
  exact hdiffer
    { selector := ".w-\\[\uFFFD\\]-w-\\[3px\\]", declarations := "width: 3px;" }
    { selector := ".w-\\[\uFFFD\\]-w-\\[3px\\]", declarations := "width: \uFFFD]-w-[3px;" }
    (by decide +kernel) (by decide +kernel) rfl

end Naming

end UtilityCss
