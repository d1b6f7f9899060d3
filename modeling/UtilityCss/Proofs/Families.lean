import UtilityCss.Proofs.Values

/-!
# What each family resolves

A family that knows a name makes a resolution of it whose texts can be written in a rule: the declarations
keep every lasting property of the variable prefix, so that they are on one line and close what they open when
the prefix does, and suffix and companions leave a selector one. The name itself holds nothing but the
characters of utility names; one line feed may follow.
-/

namespace UtilityCss
open Text Block

namespace Token
open Selector (Tail)

/-- What a family makes of a token whose name it knows. -/
structure Known (naming : Naming) (token : Token) (resolution : Resolution) : Prop where
  name : Plain token.name.toList
  /-- Only names that are read by a pattern may be followed by a line feed. -/
  unbroken : resolution.strategy ∈ [.scale, .formula, .transform] ∨ NameText token.name
  declarations {p : String → Prop} (hp : Lasting p) (hpre : p naming.variablePrefix) :
    p resolution.declarations
  suffix : Tail resolution.suffix
  companions : ∀ companion ∈ resolution.companions, companion.Fits

variable {naming : Naming} {token : Token} {resolution : Resolution}

theorem known_keyword? (h : token.keyword? = some resolution) :
    Known naming token resolution := by
  rw [keyword?] at h
  split at h
  · cases h
  · obtain ⟨declarations, hlookup, rfl⟩ := Option.map_eq_some_iff.1 h
    obtain ⟨hname, hline⟩ := Keyword.isTable_declarations.lookup hlookup
    exact {
      name := plain_of_nameText hname
      unbroken := .inr hname
      declarations := fun hp _ => hp.contained hline
      suffix := .empty
      companions := List.forall_mem_nil _ }

theorem contained_negated? {value negative : String} (hv : Contained value)
    (h : negated? value = some negative) : Contained negative := by
  simp only [negated?] at h
  split at h
  · split at h
    · cases h
    · split at h
      · obtain rfl := Option.some.inj h
        exact hv
      · obtain rfl := Option.some.inj h
        exact .append (.ofList rfl) hv
  · cases h

theorem nameText_of_cut {name head tail : String} (h : name.toList = head.toList ++ '-' :: tail.toList)
    (hhead : NameText head) (htail : NameText tail) : NameText name := by
  intro c hc
  rw [h, List.mem_append, List.mem_cons] at hc
  rcases hc with hc | rfl | hc
  · exact hhead c hc
  · decide
  · exact htail c hc

theorem plain_of_cut {name head tail : String} (h : name.toList = head.toList ++ '-' :: tail.toList)
    (hhead : NameText head) (htail : Plain tail.toList) : Plain name.toList := by
  have hdash : ∀ c ∈ head.toList ++ ['-'], isNamePart c := by
    intro c hc
    rcases List.mem_append.1 hc with hc | hc
    · exact hhead c hc
    · obtain rfl := List.mem_singleton.1 hc
      decide
  have hplain := Plain.prepend hdash htail
  rw [List.append_assoc] at hplain
  rw [h]
  exact hplain

theorem known_scaled? (h : token.scaled? = some resolution) : Known naming token resolution := by
  simp only [scaled?, Option.bind_eq_bind, Option.bind_eq_some_iff] at h
  obtain ⟨⟨head, key⟩, hcut, family, hfamily, positive, hpositive, h⟩ := h
  obtain ⟨hhead, hproperties, hsuffix⟩ := ScaleFamily.isTable_named.lookup hfamily
  obtain ⟨hkey, hline⟩ := Scale.value?_spec hpositive
  have hvalue : ∃ value, Contained value ∧ resolution = {
      strategy := .scale
      declarations := declare family.properties value
      suffix := family.suffix } := by
    split at h
    · exact ⟨positive, hline, (Option.some.inj h).symm⟩
    · split at h
      · obtain ⟨value, hnegated, h⟩ := Option.bind_eq_some_iff.1 h
        exact ⟨value, contained_negated? hline hnegated, (Option.some.inj h).symm⟩
      · cases h
  obtain ⟨value, hwritten, rfl⟩ := hvalue
  exact {
    name := plain_of_cut (cutLast?_eq_some hcut).1 hhead hkey
    unbroken := .inl (by simp)
    declarations := fun hp _ => hp.contained (contained_declare hproperties hwritten)
    suffix := hsuffix
    companions := List.forall_mem_nil _ }

def EndsInOpacity (token : Token) : Prop := ∀ digits ∈ token.opacity,
  ∃ head, token.name.toList = head ++ '/' :: digits.toList ∧ ∀ c ∈ digits.toList, c.isDigit

theorem colorAfter?_spec (hopacity : token.EndsInOpacity) {head rest value : String}
    (hname : token.name.toList = head.toList ++ '-' :: rest.toList)
    (h : token.colorAfter? naming rest = some value) :
    NameText rest ∧
      ∀ {p : String → Prop}, Lasting p → p naming.variablePrefix → p value := by
  simp only [colorAfter?, Option.bind_eq_bind, Option.bind_eq_some_iff] at h
  obtain ⟨color, hcolor, hvalue⟩ := h
  obtain ⟨hcolorName, hcss⟩ := Color.ofName?_spec hcolor
  refine ⟨?_, fun hp hpre => Color.lasting_cssWith? hp (hcss hp hpre) hvalue⟩
  cases hdigits : token.opacity with
  | none =>
    rw [hdigits] at hcolorName
    exact hcolorName
  | some digits =>
    rw [hdigits] at hcolorName
    obtain ⟨before, hend, hdigit⟩ := hopacity digits hdigits
    -- What is taken off the end is no longer than the slash and the digits, so it is a part of them.
    have hsuffix : rest.toList.drop (rest.length - (digits.length + 1)) <:+ '/' :: digits.toList := by
      have hname' : rest.toList.drop (rest.length - (digits.length + 1)) <:+ token.name.toList := by
        rw [hname]
        exact (List.drop_suffix _ _).trans ((List.suffix_cons _ _).trans (List.suffix_append _ _))
      refine List.suffix_of_suffix_length_le hname' ?_ ?_
      · rw [hend]
        exact List.suffix_append _ _
      · simp only [List.length_drop, List.length_cons, String.length_toList]
        omega
    intro c hc
    rw [← List.take_append_drop (rest.length - (digits.length + 1)) rest.toList,
      List.mem_append] at hc
    rcases hc with hc | hc
    · exact hcolorName c (by simpa using hc)
    · rcases List.mem_cons.1 (hsuffix.subset hc) with rfl | hc
      · decide
      · exact isNamePart_of_isDigit (hdigit c hc)

theorem known_colored? (hopacity : token.EndsInOpacity)
    (h : token.colored? naming = some resolution) : Known naming token resolution := by
  simp only [colored?, Option.bind_eq_bind, Option.bind_eq_some_iff] at h
  obtain ⟨-, -, ⟨head, rest⟩, hcut, family, hfamily, value, hvalue, h⟩ := h
  obtain rfl := Option.some.inj h
  obtain ⟨hhead, hproperty, hsuffix⟩ := ColorFamily.isTable_named.lookup hfamily
  have hname := (cutFirst?_eq_some hcut).1
  obtain ⟨hrest, hline⟩ := colorAfter?_spec hopacity hname hvalue
  have hwritten := nameText_of_cut hname hhead hrest
  exact {
    name := plain_of_nameText hwritten
    unbroken := .inr hwritten
    declarations := fun hp hpre => hp.declare_singleton hproperty (hline hp hpre)
    suffix := hsuffix
    companions := List.forall_mem_nil _ }

theorem known_composite? (h : token.composite? = some resolution) :
    Known naming token resolution := by
  rw [composite?] at h
  split at h
  · cases h
  · obtain ⟨composite, hlookup, rfl⟩ := Option.map_eq_some_iff.1 h
    obtain ⟨hname, hline, hsuffix⟩ := Composite.isTable_named.lookup hlookup
    exact {
      name := plain_of_nameText hname
      unbroken := .inr hname
      declarations := fun hp _ => hp.contained hline
      suffix := hsuffix
      companions := List.forall_mem_nil _ }

theorem known_effect? (h : token.effect? = some resolution) : Known naming token resolution := by
  rw [effect?] at h
  split at h
  · cases h
  · obtain ⟨effect, hlookup, rfl⟩ := Option.map_eq_some_iff.1 h
    obtain ⟨hname, hfits⟩ := Effect.isTable_named.lookup hlookup
    exact {
      name := plain_of_nameText hname
      unbroken := .inr hname
      declarations := fun hp _ => hp.contained hfits.declarations
      suffix := hfits.suffix
      companions := hfits.companions }

theorem known_formula? (h : token.formula? = some resolution) : Known naming token resolution := by
  rw [formula?] at h
  split at h
  · cases h
  · obtain ⟨declarations, hformula, rfl⟩ := Option.map_eq_some_iff.1 h
    obtain ⟨hname, hline⟩ := Formula.declarations?_spec hformula
    exact {
      name := hname
      unbroken := .inl (by simp)
      declarations := fun hp _ => hp.contained hline
      suffix := .empty
      companions := List.forall_mem_nil _ }

theorem known_transform? (h : token.transform? = some resolution) :
    Known naming token resolution := by
  obtain ⟨property, hproperty, rfl⟩ := Option.map_eq_some_iff.1 h
  obtain ⟨hname, hline⟩ := Transform.property?_spec hproperty
  exact {
    name := hname
    unbroken := .inl (by simp)
    declarations := fun hp _ =>
      hp.contained ((hline.append (.ofList rfl)).append Transform.contained_composed)
    suffix := .empty
    companions := List.forall_mem_nil _ }

theorem known_gradient? (hopacity : token.EndsInOpacity)
    (h : token.gradient? naming = some resolution) : Known naming token resolution := by
  simp only [gradient?, Option.bind_eq_bind, Option.bind_eq_some_iff] at h
  obtain ⟨-, -, h⟩ := h
  split at h
  · rename_i corner hcorner
    obtain ⟨direction, hdirection, h⟩ := Option.bind_eq_some_iff.1 h
    obtain rfl := Option.some.inj h
    obtain ⟨hname, hline⟩ := Gradient.isTable_directions.lookup hdirection
    have hbeginning : NameText "bg-gradient-to-" := .ofList rfl
    have hwritten : NameText token.name := by
      intro c hc
      rw [after?_eq_some hcorner, ← String.toList_append] at hc
      exact hbeginning.append hname c hc
    exact {
      name := plain_of_nameText hwritten
      unbroken := .inr hwritten
      declarations := fun hp _ => hp.contained (contained_declare_singleton (.ofList rfl)
        (.append (.append (.ofList rfl) (.within hline _)) (.ofList rfl)))
      suffix := .empty
      companions := List.forall_mem_nil _ }
  · simp only [Option.bind_eq_some_iff] at h
    obtain ⟨⟨head, rest⟩, hcut, stop, hstop, color, hcolor, h⟩ := h
    obtain rfl := Option.some.inj h
    have hname := (cutFirst?_eq_some hcut).1
    obtain ⟨hrest, hline⟩ := colorAfter?_spec hopacity hname hcolor
    have hwritten := nameText_of_cut hname (Gradient.nameText_of_stop hstop) hrest
    exact {
      name := plain_of_nameText hwritten
      unbroken := .inr hwritten
      declarations := fun hp hpre => Gradient.lasting_stop hp (hline hp hpre) stop
      suffix := .empty
      companions := List.forall_mem_nil _ }

theorem known_of_families (hopacity : token.EndsInOpacity)
    (h : ((families naming).findSome? fun family => family token) = some resolution) :
    Known naming token resolution := by
  obtain ⟨family, hfamily, h⟩ := List.exists_of_findSome?_eq_some h
  simp only [families, List.mem_cons, List.not_mem_nil, or_false] at hfamily
  rcases hfamily with rfl | rfl | rfl | rfl | rfl | rfl | rfl | rfl
  · exact known_keyword? h
  · exact known_scaled? h
  · exact known_colored? hopacity h
  · exact known_composite? h
  · exact known_formula? h
  · exact known_transform? h
  · exact known_gradient? hopacity h
  · exact known_effect? h

/-- A bracketed name is resolved only without a sign, to a value that cannot leave its declaration. -/
structure Bracketing (token : Token) (resolution : Resolution) (key value : String) : Prop where
  positive : token.negative = false
  key : NameText key
  allowed : Bracketed.isAllowed value
  resolution : ∃ properties, properties ≠ [] ∧ (∀ property ∈ properties, NameText property) ∧
    resolution = { strategy := .arbitrary, declarations := declare properties value }

theorem bracketing {key value : String} (harbitrary : token.arbitrary = some (key, value))
    (h : token.bracketed? = some resolution) : Bracketing token resolution key value := by
  simp only [bracketed?, harbitrary, Option.bind_eq_bind, Option.bind_some, Option.bind_eq_some_iff,
    Option.guard_eq_some', Bool.and_eq_true, Bool.not_eq_true'] at h
  obtain ⟨-, ⟨hpositive, hvalue⟩, properties, hproperties, h⟩ := h
  have hfound : NameText key ∧ properties ≠ [] ∧ ∀ property ∈ properties, NameText property := by
    simp only [Bracketed.propertiesOf?] at hproperties
    split at hproperties
    · rename_i colored hcolored
      split at hproperties
      · obtain rfl := Option.some.inj hproperties
        exact Bracketed.isTable_colorProperties.lookup hcolored
      · exact Bracketed.isTable_properties.lookup hproperties
    · exact Bracketed.isTable_properties.lookup hproperties
  exact {
    positive := hpositive
    key := hfound.1
    allowed := hvalue
    resolution := ⟨properties, hfound.2.1, hfound.2.2, (Option.some.inj h).symm⟩ }

theorem bracketing_of_resolve? {key value : String} (harbitrary : token.arbitrary = some (key, value))
    (h : token.resolve? naming = some resolution) : Bracketing token resolution key value := by
  rw [resolve?, harbitrary] at h
  exact bracketing harbitrary h

theorem arbitrary_eq_none (h : token.resolve? naming = some resolution)
    (hstrategy : resolution.strategy ≠ .arbitrary) : token.arbitrary = none := by
  cases hbrackets : token.arbitrary with
  | none => rfl
  | some brackets =>
    obtain ⟨properties, -, -, rfl⟩ := (bracketing_of_resolve? hbrackets h).resolution
    exact absurd rfl hstrategy

end Token

end UtilityCss
