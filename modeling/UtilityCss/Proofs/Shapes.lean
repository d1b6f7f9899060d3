import UtilityCss.Proofs.CompiledRules

/-!
# What the families add to a rule

Whatever family resolves a token, the text behind its class is one of a few, and companions and keyframes come
from the table of the effects.
-/

namespace UtilityCss

def suffixes : List String := ["", betweenChildren, " > *", ":active"]

namespace Token

variable {naming : Naming} {text base : String} {token : Token} {resolution : Resolution}

/-- The suffix of a resolution is one of a few, and a resolution with further rules is that of an effect. -/
structure Shaped (token : Token) (resolution : Resolution) : Prop where
  suffix : resolution.suffix ∈ suffixes
  rules : (resolution.companions = [] ∧ resolution.keyframes = []) ∨
    ∃ effect, Effect.named.lookup token.name = some effect ∧ resolution = {
      strategy := .multi
      declarations := effect.declarations
      suffix := effect.suffix
      companions := effect.companions
      keyframes := effect.keyframes }

theorem shaped_scaled? (h : token.scaled? = some resolution) : Shaped token resolution := by
  have htable : ∀ p ∈ ScaleFamily.named, p.2.suffix ∈ suffixes := by decide
  simp only [scaled?, Option.bind_eq_bind, Option.bind_eq_some_iff] at h
  obtain ⟨⟨head, key⟩, -, family, hfamily, positive, -, h⟩ := h
  have hsuffix := htable _ (mem_of_lookup_eq_some hfamily)
  split at h
  · obtain rfl := Option.some.inj h
    exact ⟨hsuffix, .inl ⟨rfl, rfl⟩⟩
  · split at h
    · obtain ⟨value, -, h⟩ := Option.bind_eq_some_iff.1 h
      obtain rfl := Option.some.inj h
      exact ⟨hsuffix, .inl ⟨rfl, rfl⟩⟩
    · cases h

theorem shaped_colored? (h : token.colored? naming = some resolution) : Shaped token resolution := by
  have htable : ∀ p ∈ ColorFamily.named, p.2.suffix ∈ suffixes := by decide
  simp only [colored?, Option.bind_eq_bind, Option.bind_eq_some_iff] at h
  obtain ⟨-, -, ⟨head, rest⟩, -, family, hfamily, value, -, h⟩ := h
  obtain rfl := Option.some.inj h
  exact ⟨htable _ (mem_of_lookup_eq_some hfamily), .inl ⟨rfl, rfl⟩⟩

theorem shaped_composite? (h : token.composite? = some resolution) : Shaped token resolution := by
  have htable : ∀ p ∈ Composite.named, p.2.suffix ∈ suffixes := by decide
  rw [composite?] at h
  split at h
  · cases h
  · obtain ⟨composite, hlookup, rfl⟩ := Option.map_eq_some_iff.1 h
    exact ⟨htable _ (mem_of_lookup_eq_some hlookup), .inl ⟨rfl, rfl⟩⟩

theorem shaped_effect? (h : token.effect? = some resolution) : Shaped token resolution := by
  have htable : ∀ p ∈ Effect.named, p.2.suffix ∈ suffixes := by decide
  rw [effect?] at h
  split at h
  · cases h
  · obtain ⟨effect, hlookup, rfl⟩ := Option.map_eq_some_iff.1 h
    exact ⟨htable _ (mem_of_lookup_eq_some hlookup), .inr ⟨effect, hlookup, rfl⟩⟩

theorem shaped_gradient? (h : token.gradient? naming = some resolution) :
    Shaped token resolution := by
  simp only [gradient?, Option.bind_eq_bind, Option.bind_eq_some_iff] at h
  obtain ⟨-, -, h⟩ := h
  split at h
  · obtain ⟨direction, -, h⟩ := Option.bind_eq_some_iff.1 h
    obtain rfl := Option.some.inj h
    exact ⟨List.mem_cons_self, .inl ⟨rfl, rfl⟩⟩
  · simp only [Option.bind_eq_some_iff] at h
    obtain ⟨⟨head, rest⟩, -, stop, -, color, -, h⟩ := h
    obtain rfl := Option.some.inj h
    exact ⟨List.mem_cons_self, .inl ⟨rfl, rfl⟩⟩

theorem shaped_of_families
    (h : ((families naming).findSome? fun family => family token) = some resolution) :
    Shaped token resolution := by
  obtain ⟨family, hfamily, h⟩ := List.exists_of_findSome?_eq_some h
  simp only [families, List.mem_cons, List.not_mem_nil, or_false] at hfamily
  rcases hfamily with rfl | rfl | rfl | rfl | rfl | rfl | rfl | rfl
  · rw [keyword?] at h
    split at h
    · cases h
    · obtain ⟨declarations, -, rfl⟩ := Option.map_eq_some_iff.1 h
      exact ⟨List.mem_cons_self, .inl ⟨rfl, rfl⟩⟩
  · exact shaped_scaled? h
  · exact shaped_colored? h
  · exact shaped_composite? h
  · rw [formula?] at h
    split at h
    · cases h
    · obtain ⟨declarations, -, rfl⟩ := Option.map_eq_some_iff.1 h
      exact ⟨List.mem_cons_self, .inl ⟨rfl, rfl⟩⟩
  · obtain ⟨property, -, rfl⟩ := Option.map_eq_some_iff.1 h
    exact ⟨List.mem_cons_self, .inl ⟨rfl, rfl⟩⟩
  · exact shaped_gradient? h
  · exact shaped_effect? h

theorem shaped_of_resolve? (hparts : Parts naming text token base)
    (h : token.resolve? naming = some resolution) : Shaped token resolution := by
  rcases known_or_bracketing hparts h with ⟨hnone, -⟩ | ⟨key, value, -, hbracketing⟩
  · rw [resolve?, hnone] at h
    exact shaped_of_families h
  · obtain ⟨properties, -, -, rfl⟩ := hbracketing.resolution
    exact ⟨List.mem_cons_self, .inl ⟨rfl, rfl⟩⟩

theorem effect_of_companion (hparts : Parts naming text token base)
    (h : token.resolve? naming = some resolution) {companion : Companion}
    (hcompanion : companion ∈ resolution.companions) :
    ∃ effect, (token.name, effect) ∈ Effect.named ∧ companion ∈ effect.companions ∧
      resolution.declarations = effect.declarations := by
  rcases (shaped_of_resolve? hparts h).rules with ⟨hnone, -⟩ | ⟨effect, hlookup, rfl⟩
  · rw [hnone] at hcompanion
    cases hcompanion
  · exact ⟨effect, mem_of_lookup_eq_some hlookup, hcompanion, rfl⟩

theorem companionRules_ne_ruleOf (hparts : Parts naming text token base)
    (h : token.resolve? naming = some resolution) {rule : Rule}
    (hrule : rule ∈ token.companionRules naming resolution) : rule ≠ token.ruleOf naming resolution := by
  have htable : ∀ p ∈ Effect.named, ∀ companion ∈ p.2.companions,
      companion.declarations ≠ p.2.declarations := by decide
  obtain ⟨companion, hcompanion, rfl⟩ := List.mem_map.1 hrule
  obtain ⟨effect, hentry, hmem, hsame⟩ := effect_of_companion hparts h hcompanion
  intro heq
  exact htable _ hentry companion hmem ((congrArg Rule.declarations heq).trans hsame)

theorem ownRule?_rules (hparts : Parts naming text token base)
    (h : token.resolve? naming = some resolution) :
    Naming.ownRule? (token.rules naming resolution) = some (token.ruleOf naming resolution) := by
  have hown := (styles_ruleOf hparts (fits_of_resolve hparts h)).isKeyframes
  have hkeyframes : resolution.keyframesRules.find? (fun rule => !rule.isKeyframes) = none := by
    rw [List.find?_eq_none]
    intro rule hrule
    simpa using (animates_of_mem_keyframesRules hrule).isKeyframes
  rw [Naming.ownRule?, rules, List.find?_append, hkeyframes, Option.none_or,
    List.find?_cons_of_pos (by simpa using hown)]

/-- The three places that a rule has among the rules of its token. -/
inductive Place (naming : Naming) (text : String) (token : Token) (resolution : Resolution) (rule : Rule) : Prop
  | keyframes (hrule : rule ∈ resolution.keyframesRules) (hkeyframes : rule.isKeyframes = true)
  | own (hrule : rule = token.ruleOf naming resolution) (hkeyframes : rule.isKeyframes = false)
      (hown : naming.rule? text = some rule)
  | companion (hrule : rule ∈ token.companionRules naming resolution) (hkeyframes : rule.isKeyframes = false)
      (hother : naming.rule? text ≠ some rule)

end Token

theorem Naming.exists_place {naming : Naming} {text : String} {rule : Rule} (h : rule ∈ naming.rules text) :
    ∃ token base resolution, Token.Parts naming text token base ∧
      token.resolve? naming = some resolution ∧ Token.Place naming text token resolution rule := by
  obtain ⟨token, base, resolution, hparts, hresolve, hrules⟩ := exists_resolution h
  have hfits := Token.fits_of_resolve hparts hresolve
  have hown : naming.rule? text = some (token.ruleOf naming resolution) := by
    rw [rule?, hrules, Token.ownRule?_rules hparts hresolve]
  refine ⟨token, base, resolution, hparts, hresolve, ?_⟩
  rw [hrules, Token.rules, List.mem_append, List.mem_cons] at h
  rcases h with h | rfl | h
  · exact .keyframes h (Token.animates_of_mem_keyframesRules h).isKeyframes
  · exact .own rfl (Token.styles_ruleOf hparts hfits).isKeyframes hown
  · refine .companion h (Token.styles_companionRules hparts hfits rule h).isKeyframes ?_
    rw [hown]
    exact fun heq => Token.companionRules_ne_ruleOf hparts hresolve h (Option.some.inj heq).symm

end UtilityCss
