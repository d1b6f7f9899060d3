import UtilityCss.Compile
import UtilityCss.Proofs.Contexts
import UtilityCss.Proofs.Families

/-!
# How the rules of a token are written

A rule of a token is a keyframes rule or a rule that selects the token. Either has a selector that is written
as selectors are, one line of declarations, and a media query on one line if any. The modules on stylesheets
know no more than this of the families and of the variants.
-/

namespace UtilityCss
open Text Block

namespace Token

variable {naming : Naming} {text base : String} {token : Token} {resolution : Resolution}

theorem endsInOpacity_of_name (h : token.opacity = (opacityOf? token.name.toList).map String.ofList) :
    token.EndsInOpacity := by
  intro digits hdigits
  rw [h] at hdigits
  obtain ⟨tail, htail, rfl⟩ := Option.map_eq_some_iff.1 hdigits
  obtain ⟨head, -, hname, -, hdigit⟩ := eq_of_opacityOf? htail
  exact ⟨head, by simpa using hname, by simpa using hdigit⟩

theorem Parts.endsInOpacity (h : Parts naming text token base) (ha : token.arbitrary = none) :
    token.EndsInOpacity := by
  apply endsInOpacity_of_name
  rw [h.opacity_eq, ha]
  rfl

theorem known_or_bracketing (hparts : Parts naming text token base)
    (h : token.resolve? naming = some resolution) :
    (token.arbitrary = none ∧ Known naming token resolution) ∨
      ∃ key value, token.arbitrary = some (key, value) ∧ Bracketing token resolution key value := by
  cases harbitrary : token.arbitrary with
  | none =>
    rw [resolve?, harbitrary] at h
    exact Or.inl ⟨rfl, known_of_families (hparts.endsInOpacity harbitrary) h⟩
  | some p => exact Or.inr ⟨p.1, p.2, rfl, bracketing_of_resolve? harbitrary h⟩

end Token

namespace Bracketed

theorem not_mem_of_isAllowed {value : String} (h : isAllowed value) {c : Char} (hc : c ∈ forbidden) :
    c ∉ value.toList := by
  simp only [isAllowed, Bool.and_eq_true, Bool.not_eq_true', List.any_eq_false] at h
  intro hmem
  exact h.2 c hmem (List.contains_iff_mem.2 hc)

theorem oneLine_of_isAllowed {value : String} (h : isAllowed value) : OneLine value :=
  oneLine_iff.2 (not_mem_of_isAllowed h (by decide))

end Bracketed

theorem Naming.lasting_variablePrefix {p : String → Prop} (hp : Lasting p) {naming : Naming}
    (h : p naming.classPrefix) : p naming.variablePrefix := by
  rw [variablePrefix]
  split
  · exact hp.contained (.ofList rfl)
  · exact h

/-- What is true of a resolution whether or not the name has brackets. -/
structure Resolution.Fits (naming : Naming) (resolution : Resolution) : Prop where
  declarations : OneLine naming.classPrefix → OneLine resolution.declarations
  suffix : Selector.Tail resolution.suffix
  companions : ∀ companion ∈ resolution.companions, companion.Fits

theorem Token.Known.fits {naming : Naming} {token : Token} {resolution : Resolution}
    (h : Known naming token resolution) : resolution.Fits naming where
  declarations hpre := h.declarations lasting_oneLine (Naming.lasting_variablePrefix lasting_oneLine hpre)
  suffix := h.suffix
  companions := h.companions

theorem Token.Bracketing.fits {naming : Naming} {token : Token} {resolution : Resolution}
    {key value : String} (h : Bracketing token resolution key value) : resolution.Fits naming := by
  obtain ⟨properties, -, hproperties, rfl⟩ := h.resolution
  have hcontained : ∀ property ∈ properties, Contained property :=
    fun property hmem => contained_of_nameText (hproperties property hmem)
  exact {
    declarations := fun _ =>
      lasting_oneLine.declare hcontained (Bracketed.oneLine_of_isAllowed h.allowed)
    suffix := .empty
    companions := List.forall_mem_nil _ }

namespace Rule
open Selector

structure Animates (rule : Rule) : Prop where
  selector : ∃ name, MadeOf isQuiet name ∧ rule.selector = "@keyframes " ++ name
  declarations : Contained rule.declarations
  media : rule.media = none

structure Styles (naming : Naming) (text : String) (rule : Rule) : Prop where
  selector : Selects text.toList rule.selector
  declarations : OneLine naming.classPrefix → OneLine rule.declarations
  media : ∀ query ∈ rule.media, OneLine query ∧ query ≠ ""

theorem isKeyframes_of_selector {rule : Rule} {name : String} (h : rule.selector = "@keyframes " ++ name) :
    rule.isKeyframes := by
  rw [Rule.isKeyframes, beginsWith, h, String.toList_append]
  exact List.isPrefixOf_iff_prefix.2 ⟨' ' :: name.toList, by simp⟩

theorem Animates.isKeyframes {rule : Rule} (h : rule.Animates) : rule.isKeyframes := by
  obtain ⟨name, -, hselector⟩ := h.selector
  exact isKeyframes_of_selector hselector

theorem Styles.isKeyframes {naming : Naming} {text : String} {rule : Rule}
    (h : rule.Styles naming text) : rule.isKeyframes = false := by
  rw [Rule.isKeyframes, beginsWith, Bool.eq_false_iff]
  intro hpre
  obtain ⟨rest, heq⟩ := List.isPrefixOf_iff_prefix.1 hpre
  have hhead := h.selector.1
  rw [← heq] at hhead
  simp at hhead

end Rule

namespace Token
open Selector

variable {naming : Naming} {text base : String} {token : Token} {resolution : Resolution}

theorem fits_of_resolve (hparts : Parts naming text token base)
    (h : token.resolve? naming = some resolution) : resolution.Fits naming := by
  rcases known_or_bracketing hparts h with ⟨-, hknown⟩ | ⟨key, value, -, hbracketing⟩
  · exact hknown.fits
  · exact hbracketing.fits

theorem animates_of_mem_keyframesRules {rule : Rule} (h : rule ∈ resolution.keyframesRules) :
    rule.Animates := by
  obtain ⟨name, -, hrule⟩ := List.mem_filterMap.1 h
  obtain ⟨stops, hlookup, rfl⟩ := Option.map_eq_some_iff.1 hrule
  obtain ⟨hname, hstops⟩ := Effect.animated_animations _ (mem_of_lookup_eq_some hlookup)
  exact {
    selector := ⟨name, hname, rfl⟩
    declarations := hstops
    media := rfl }

theorem styles_ruleOf (hparts : Parts naming text token base) (h : resolution.Fits naming) :
    (token.ruleOf naming resolution).Styles naming text := by
  have hcontext := Context.sound_ofNames token.variants
  obtain ⟨hne, hselects⟩ := hcontext.parts hparts.text_ne.1 h.suffix naming.classPrefix
  exact {
    selector := by
      rw [← hparts.text_eq] at hne hselects ⊢
      exact Selects.listed hne hselects
    declarations := h.declarations
    media := hcontext.media }

theorem styles_companionRules (hparts : Parts naming text token base) (h : resolution.Fits naming) :
    ∀ rule ∈ token.companionRules naming resolution, rule.Styles naming text := by
  intro rule hrule
  obtain ⟨companion, hcompanion, rfl⟩ := List.mem_map.1 hrule
  obtain ⟨hdeclarations, haroundNe, haround⟩ := h.companions companion hcompanion
  have hcontext := Context.sound_ofNames token.variants
  obtain ⟨hne, hselects⟩ := hcontext.parts hparts.text_ne.1 .empty naming.classPrefix
  rw [← hparts.text_eq] at hne hselects ⊢
  refine { selector := ?_, declarations := fun _ => hdeclarations.oneLine, media := hcontext.media }
  refine Selects.listed (by simpa using hne) ?_
  intro s hs
  obtain ⟨part, hpart, rfl⟩ := List.mem_map.1 hs
  refine Selects.listed (by simpa using haroundNe) ?_
  intro s hs
  obtain ⟨⟨before, after⟩, hpair, rfl⟩ := List.mem_map.1 hs
  obtain ⟨hbefore, hafter⟩ := haround _ hpair
  exact ((hselects part hpart).prepend hbefore).append hafter

end Token

namespace Naming

variable {naming : Naming} {text : String}

theorem exists_resolution {rule : Rule} (h : rule ∈ naming.rules text) :
    ∃ token base resolution, Token.Parts naming text token base ∧
      token.resolve? naming = some resolution ∧ naming.rules text = token.rules naming resolution := by
  cases htoken : Token.ofText? naming text with
  | none => simp [rules, htoken] at h
  | some token =>
    cases hresolution : token.resolve? naming with
    | none => simp [rules, htoken, hresolution] at h
    | some resolution =>
      obtain ⟨base, hparts⟩ := Token.exists_parts htoken
      exact ⟨token, base, resolution, hparts, hresolution, by simp [rules, htoken, hresolution]⟩

theorem animates_or_styles {rule : Rule} (h : rule ∈ naming.rules text) :
    rule.Animates ∨ rule.Styles naming text := by
  obtain ⟨token, base, resolution, hparts, hresolve, hrules⟩ := exists_resolution h
  have hfits := Token.fits_of_resolve hparts hresolve
  rw [hrules, Token.rules, List.mem_append, List.mem_cons] at h
  rcases h with h | rfl | h
  · exact Or.inl (Token.animates_of_mem_keyframesRules h)
  · exact Or.inr (Token.styles_ruleOf hparts hfits)
  · exact Or.inr (Token.styles_companionRules hparts hfits rule h)

end Naming

end UtilityCss
