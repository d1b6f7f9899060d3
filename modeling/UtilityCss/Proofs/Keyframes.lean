import UtilityCss.Proofs.GrowingSheets
import UtilityCss.Proofs.Shapes

/-!
# Keyframes before their use

A token that runs keyframes puts their rule before its own rules, outside every media query. The style sheet of
some tokens holds the rule of keyframes once if one of them runs these. It stands before the rules of all
tokens that run them: a rule that is no keyframes rule comes from one token only, and that token has put the
keyframes before it.
-/

namespace UtilityCss
open Text

theorem idxOf_lt_of_mem_append {α : Type} [DecidableEq α] {l l' : List α} {a b : α} (ha : a ∈ l)
    (hb : b ∉ l) : (l ++ l').idxOf a < (l ++ l').idxOf b := by
  rw [List.idxOf_append_of_mem ha, List.idxOf_append_of_notMem hb]
  exact Nat.lt_add_right _ (List.idxOf_lt_length_of_mem ha)

namespace Rule

structure Defines (rule : Rule) (name : String) : Prop where
  selector : rule.selector = "@keyframes " ++ name
  declarations : Effect.animations.lookup name = some rule.declarations
  media : rule.media = none

theorem Defines.unique {rule other : Rule} {name : String} (h : rule.Defines name)
    (h' : other.Defines name) : rule = other := by
  obtain ⟨selector, declarations, media⟩ := rule
  obtain ⟨hselector, hdeclarations, hmedia⟩ := h
  obtain ⟨hselector', hdeclarations', hmedia'⟩ := h'
  have hsame := Option.some.inj (hdeclarations.symm.trans hdeclarations')
  simp only at hselector hmedia hsame
  rw [hselector, hsame, hmedia, ← hselector', ← hmedia']

end Rule

theorem Resolution.mem_keyframesRules {resolution : Resolution} {rule : Rule} :
    rule ∈ resolution.keyframesRules ↔ ∃ name ∈ resolution.keyframes, rule.Defines name := by
  simp only [keyframesRules, List.mem_filterMap, Option.map_eq_some_iff]
  refine exists_congr fun name => and_congr_right fun _ => ?_
  constructor
  · rintro ⟨stops, hlookup, rfl⟩
    exact ⟨rfl, hlookup, rfl⟩
  · rintro ⟨hselector, hlookup, hmedia⟩
    exact ⟨_, hlookup, Rule.Defines.unique ⟨rfl, hlookup, rfl⟩ ⟨hselector, hlookup, hmedia⟩⟩

/-- A text that is resolved with the keyframes of a name. -/
def Naming.Runs (naming : Naming) (text name : String) : Prop :=
  ∃ resolution, naming.explain? text = some resolution ∧ name ∈ resolution.keyframes

namespace Token

variable {naming : Naming} {text base : String} {token : Token} {resolution : Resolution}

theorem keyframes_of_resolve (hparts : Parts naming text token base)
    (h : token.resolve? naming = some resolution) {name : String} (hname : name ∈ resolution.keyframes) :
    resolution.keyframes = [name] ∧ ∃ stops, Effect.animations.lookup name = some stops ∧ stops ≠ "" := by
  have htable : ∀ p ∈ Effect.named, ∀ name ∈ p.2.keyframes,
      p.2.keyframes = [name] ∧ (Effect.animations.lookup name).any fun stops => stops ≠ "" := by decide
  rcases (shaped_of_resolve? hparts h).rules with ⟨-, hnone⟩ | ⟨effect, hlookup, rfl⟩
  · rw [hnone] at hname
    cases hname
  · obtain ⟨hsole, hany⟩ := htable _ (mem_of_lookup_eq_some hlookup) name hname
    exact ⟨hsole, by simpa [Option.any_eq_true] using hany⟩

end Token

namespace Naming

variable {naming : Naming} {text name : String} {rule : Rule}

theorem Runs.exists_rules (h : naming.Runs text name) : ∃ defining own,
    naming.rules text = defining :: own ∧ defining.Defines name ∧ defining.declarations ≠ "" ∧
      ∀ rule ∈ own, rule.isKeyframes = false := by
  obtain ⟨resolution, hexplain, hname⟩ := h
  obtain ⟨token, htoken, hresolve⟩ := Option.bind_eq_some_iff.1 hexplain
  obtain ⟨base, hparts⟩ := Token.exists_parts htoken
  obtain ⟨hsole, stops, hlookup, hstops⟩ := Token.keyframes_of_resolve hparts hresolve hname
  have hfits := Token.fits_of_resolve hparts hresolve
  refine ⟨{ selector := "@keyframes " ++ name, declarations := stops },
    token.ruleOf naming resolution :: token.companionRules naming resolution, ?_, ⟨rfl, hlookup, rfl⟩,
    hstops, ?_⟩
  · simp only [rules, htoken, hresolve, Token.rules, Resolution.keyframesRules, hsole]
    simp [hlookup]
  · intro rule hrule
    rcases List.mem_cons.1 hrule with rfl | hrule
    · exact (Token.styles_ruleOf hparts hfits).isKeyframes
    · exact (Token.styles_companionRules hparts hfits rule hrule).isKeyframes

theorem runs_of_mem_rules (h : rule ∈ naming.rules text) (hselector : rule.selector = "@keyframes " ++ name) :
    naming.Runs text name ∧ rule.Defines name := by
  obtain ⟨token, base, resolution, hparts, hresolve, hplace⟩ := exists_place h
  have hmem : rule ∈ resolution.keyframesRules := by
    have hkeyframes := Rule.isKeyframes_of_selector hselector
    cases hplace with
    | keyframes hrule _ => exact hrule
    | own _ hstyle _ => simp [hstyle] at hkeyframes
    | companion _ hstyle _ => simp [hstyle] at hkeyframes
  obtain ⟨other, hother, hdefines⟩ := Resolution.mem_keyframesRules.1 hmem
  have hexplain : naming.explain? text = some resolution :=
    Option.bind_eq_some_iff.2 ⟨token, hparts.ofText?_eq, hresolve⟩
  obtain rfl : other = name := by
    have hsame := hdefines.selector.symm.trans hselector
    exact String.append_right_inj "@keyframes " |>.1 hsame
  exact ⟨⟨resolution, hexplain, hother⟩, hdefines⟩

end Naming

namespace Stylesheet
open SheetText

variable {naming : Naming} {tokens : List String} {text name : String} {defining used : Rule}

theorem exists_mem_rulesOf_iff :
    (∃ rule ∈ rulesOf naming tokens, rule.selector = "@keyframes " ++ name) ↔
      ∃ text ∈ tokens, naming.Runs text name := by
  constructor
  · rintro ⟨rule, hrule, hselector⟩
    obtain ⟨-, text, htext, hmem⟩ := mem_rulesOf.1 hrule
    exact ⟨text, mem_orderedSet.1 htext, (Naming.runs_of_mem_rules hmem hselector).1⟩
  · rintro ⟨text, htext, hruns⟩
    obtain ⟨rule, own, hrules, hdefines, hdeclares, -⟩ := hruns.exists_rules
    have hmem : rule ∈ naming.rules text := hrules ▸ List.mem_cons_self
    exact ⟨rule, mem_rulesOf.2 ⟨hdeclares, text, mem_orderedSet.2 htext, hmem⟩, hdefines.selector⟩

theorem idxOf_defining_lt (hdefines : defining.Defines name) (htext : text ∈ tokens)
    (hruns : naming.Runs text name) (hused : used ∈ naming.rules text) (hne : used ≠ defining) :
    ((orderedSet tokens).flatMap naming.rules).idxOf defining <
      ((orderedSet tokens).flatMap naming.rules).idxOf used := by
  obtain ⟨first, own, hrules, hfirst, -, hown⟩ := hruns.exists_rules
  obtain rfl := hfirst.unique hdefines
  have hstyle : used.isKeyframes = false := by
    rw [hrules] at hused
    exact hown used ((List.mem_cons.1 hused).resolve_left hne)
  obtain ⟨front, back, horder⟩ := List.append_of_mem (mem_orderedSet.2 htext)
  have hfront : used ∉ front.flatMap naming.rules := by
    intro hmem
    obtain ⟨other, hother, hshared⟩ := List.mem_flatMap.1 hmem
    have hsorted := pairwise_orderedSet tokens
    rw [horder] at hsorted
    have hlt := (List.pairwise_append.1 hsorted).2.2 other hother text List.mem_cons_self
    have hkeyframes := Naming.isKeyframes_of_shared (ne_of_lt hlt) hshared hused
    rw [hstyle] at hkeyframes
    cases hkeyframes
  have hproduced : (orderedSet tokens).flatMap naming.rules =
      (front.flatMap naming.rules ++ [first]) ++ (own ++ back.flatMap naming.rules) := by
    rw [horder, List.flatMap_append, List.flatMap_cons, hrules, List.append_assoc]
    rfl
  rw [hproduced]
  apply idxOf_lt_of_mem_append
  · exact List.mem_append_right _ (List.mem_singleton_self first)
  · simpa [hfront] using hne

theorem parts_of_mem_unconditional {sheet : Stylesheet} {rule : Rule} (h : rule ∈ sheet.unconditional) :
    ∃ blocks, sheet.parts = { rules := sheet.unconditional } :: blocks := by
  have hne : ¬sheet.unconditional.isEmpty := by simpa using List.ne_nil_of_mem h
  rw [parts, if_neg hne]
  exact ⟨_, rfl⟩

theorem exists_parts_of_defining (hmem : defining ∈ rulesOf naming tokens)
    (hselector : defining.selector = "@keyframes " ++ name) :
    Effect.animations.lookup name = some defining.declarations ∧
      ∃ before after blocks,
        (ofTokens naming tokens "").parts = { rules := before ++ defining :: after } :: blocks ∧
        (∀ other ∈ before ++ after ++ blocks.flatMap Part.rules, other.selector ≠ "@keyframes " ++ name) ∧
        ∀ text ∈ tokens, naming.Runs text name → ∀ used ∈ naming.rules text, used ∉ before := by
  have hproduced {rule : Rule} (hrule : rule ∈ rulesOf naming tokens)
      (hname : rule.selector = "@keyframes " ++ name) : rule.Defines name := by
    obtain ⟨-, text, -, htext⟩ := mem_rulesOf.1 hrule
    exact (Naming.runs_of_mem_rules htext hname).2
  have hdefines := hproduced hmem hselector
  have hfirst : defining ∈ (ofTokens naming tokens "").unconditional :=
    mem_unconditional.2 ⟨hmem, hdefines.media⟩
  obtain ⟨blocks, hparts⟩ := parts_of_mem_unconditional hfirst
  obtain ⟨before, after, heq⟩ := List.append_of_mem hfirst
  rw [heq] at hparts
  have hnodup : ((ofTokens naming tokens "").parts.flatMap Part.rules).Nodup :=
    nodup_flatMap_parts (nodup_eraseDups _)
  rw [hparts, List.flatMap_cons] at hnodup
  refine ⟨hdefines.declarations, before, after, blocks, hparts, ?_, ?_⟩
  · intro other hother hname
    have hall : other ∈ (ofTokens naming tokens "").parts.flatMap Part.rules := by
      rw [hparts, List.flatMap_cons]
      simp only [List.mem_append, List.mem_cons] at hother ⊢
      tauto
    obtain rfl := (hproduced (mem_flatMap_parts.1 hall) hname).unique hdefines
    have hmoved : (other :: (before ++ after ++ blocks.flatMap Part.rules)).Nodup := by
      refine hnodup.perm ?_
      exact (List.perm_middle).append_right _
    exact (List.nodup_cons.1 hmoved).1 hother
  · intro text htext hruns used hused hbefore
    have hsorted : (before ++ defining :: after).Pairwise fun a b =>
        ((orderedSet tokens).flatMap naming.rules).idxOf a <
          ((orderedSet tokens).flatMap naming.rules).idxOf b := by
      rw [← heq]
      exact (pairwise_rulesOf naming tokens).filter _
    have hlt := (List.pairwise_append.1 hsorted).2.2 used hbefore defining List.mem_cons_self
    have hne : used ≠ defining := by
      rintro rfl
      exact Nat.lt_irrefl _ hlt
    exact Nat.lt_asymm hlt (idxOf_defining_lt hdefines htext hruns hused hne)

end Stylesheet

open Stylesheet SheetText

/-- The style sheet of some tokens defines the keyframes that these run and no others. It defines them once,
outside every media query, and no rule of a token that runs them stands before. -/
theorem Compiler.sheet_defines_keyframes {naming : Naming} (hpre : '\n' ∉ naming.classPrefix.toList)
    (size : Option Int) (earlier : List Call) (tokens : List String) :
    ∃ parts, read? (((fresh naming size).run earlier).2.sheet tokens "").1.render.toList = some parts ∧
      ∀ name, ((∃ rule ∈ parts.flatMap Part.rules, rule.selector = "@keyframes " ++ name) ↔
          ∃ text ∈ tokens, naming.Runs text name) ∧
        ∀ rule ∈ parts.flatMap Part.rules, rule.selector = "@keyframes " ++ name →
          Effect.animations.lookup name = some rule.declarations ∧
          ∃ before after blocks, parts = { rules := before ++ rule :: after } :: blocks ∧
            (∀ other ∈ before ++ after ++ blocks.flatMap Part.rules,
              other.selector ≠ "@keyframes " ++ name) ∧
            ∀ text ∈ tokens, naming.Runs text name → ∀ used ∈ naming.rules text, used ∉ before := by
  refine ⟨(ofTokens naming tokens "").parts, ?_, fun name => ⟨?_, fun rule hrule hselector => ?_⟩⟩
  · rw [sheet_run]
    exact read?_render (oneLine_iff.2 hpre) tokens
  · simp only [mem_flatMap_parts]
    exact exists_mem_rulesOf_iff
  · exact exists_parts_of_defining (mem_flatMap_parts.1 hrule) hselector

theorem Compiler.sheet_defines_keyframes_float :
    let tokens := ["vibe-animate-float-delayed", "md:vibe-animate-float", "vibe-flex"]
    '\n' ∉ ({} : Naming).classPrefix.toList ∧
      ∃ parts, read? (((fresh {} none).run []).2.sheet tokens "").1.render.toList = some parts ∧
        ∃ rule ∈ parts.flatMap Part.rules, rule.selector = "@keyframes vibe-float" ∧
          ∃ before after blocks, parts = { rules := before ++ rule :: after } :: blocks ∧
            ∀ used ∈ ({} : Naming).rules "md:vibe-animate-float", used ∉ before := by
  intro tokens
  have hpre : '\n' ∉ ({} : Naming).classPrefix.toList := by decide
  have hresolution : (({} : Naming).explain? "md:vibe-animate-float").any fun resolution =>
      "vibe-float" ∈ resolution.keyframes := by decide +kernel
  have hruns : ({} : Naming).Runs "md:vibe-animate-float" "vibe-float" := by
    obtain ⟨resolution, hexplain, hname⟩ := Option.any_eq_true _ _ |>.1 hresolution
    exact ⟨resolution, hexplain, by simpa using hname⟩
  obtain ⟨parts, hread, hall⟩ := sheet_defines_keyframes hpre none [] tokens
  obtain ⟨hiff, hplace⟩ := hall "vibe-float"
  have hmem : "md:vibe-animate-float" ∈ tokens := List.mem_cons_of_mem _ List.mem_cons_self
  obtain ⟨rule, hrule, hselector⟩ := hiff.2 ⟨_, hmem, hruns⟩
  obtain ⟨-, before, after, blocks, hparts, -, hbefore⟩ := hplace rule hrule hselector
  exact ⟨hpre, parts, hread, rule, hrule, hselector, before, after, blocks, hparts, hbefore _ hmem hruns⟩

end UtilityCss
