import UtilityCss.Proofs.Vocabulary

/-!
# Negative utilities

A minus sign before a name means what the name means without it, with the value that the name sets negated. Only
lengths of scales that allow it, translations and rotations have a negative form, and zero is its own. No other
family reads such a name when it has no sign, so that one strategy resolves it with either sign.
-/

namespace UtilityCss
open Text Vocabulary

structure Setting where
  strategy : Strategy
  properties : List String
  /-- The declarations that do not depend on the name. -/
  rest : String := ""
  suffix : String := ""
  deriving DecidableEq, Repr

namespace Setting

def resolution (setting : Setting) (value : String) : Resolution where
  strategy := setting.strategy
  declarations := declare setting.properties value ++ setting.rest
  suffix := setting.suffix

def ofFamily (family : ScaleFamily) : Setting where
  strategy := .scale
  properties := family.properties
  suffix := family.suffix

def ofTransform (property : String) : Setting where
  strategy := .transform
  properties := [property]
  rest := " " ++ Transform.composed

end Setting

/-- The value with a minus sign before it, unless it is zero. -/
def opposite (value : String) : String := if value = "0" ∨ value = "0deg" then value else "-" ++ value

namespace Transform

def axes : List (String × String) :=
  [("--tw-translate-x", "translate-x-"), ("--tw-translate-y", "translate-y-")]

/-- A name without a sign is that of a translation or a rotation, which sets a property to a value. -/
inductive Turned (name : String) : String → String → Prop
  | translated {property beginning value : String} (haxis : (property, beginning) ∈ axes)
      (h : translate? false property name beginning = some (declare [property] value)) :
      Turned name property value
  | rotated {value : String} (h : rotate? false name = some (declare ["--tw-rotate"] value)) :
      Turned name "--tw-rotate" value

end Transform

/-- How a name without a sign sets a value that can be negated. -/
inductive Negatable (name : String) : Setting → String → Prop
  | scaled {head key value : String} {family : ScaleFamily} (hcut : cutLast? '-' name = some (head, key))
      (hfamily : ScaleFamily.named.lookup head = some family) (hnegatable : family.negatable = true)
      (hvalue : family.scale.value? key = some value) (hdigit : value.toList.head?.any Char.isDigit = true) :
      Negatable name (.ofFamily family) value
  | transformed {property value : String} (h : Transform.Turned name property value) :
      Negatable name (.ofTransform property) value

/-! ### Values -/

theorem toString_nat_injective : Function.Injective (toString : Nat → String) := by
  intro m n h
  have hdigits := congrArg (fun text : String => Nat.ofDigitChars 10 text.toList 0) h
  simpa only [Nat.toString_eq_ofList_toDigits, String.toList_ofList, Nat.ofDigitChars_ten_toDigits] using hdigits

theorem declare_singleton_inj {property value other : String} :
    declare [property] value = declare [property] other ↔ value = other := by
  rw [Token.declare_singleton, Token.declare_singleton, String.append_left_inj, String.append_right_inj]

theorem opposite_of_length {value : String} (h : Scale.Length value) :
    opposite value = if value = "0" then value else "-" ++ value := by
  simp only [opposite, h.ne_zeroDegrees, or_false]

theorem opposite_angle (degrees : Nat) :
    opposite (toString degrees ++ "deg") =
      if degrees = 0 then toString degrees ++ "deg" else "-" ++ (toString degrees ++ "deg") := by
  have hunit : toString degrees ++ "deg" ≠ "0" := by
    intro heq
    have hlast := congrArg (fun text : String => text.toList.getLast?) heq
    have hend : "deg".toList.getLast? = some 'g' := by decide
    rw [String.toList_append, List.getLast?_append, hend, Option.some_or] at hlast
    exact absurd hlast (by decide)
  have hzero : toString degrees ++ "deg" = "0deg" ↔ degrees = 0 := by
    constructor
    · intro heq
      have hdigits : toString degrees = "0" := (String.append_left_inj "deg").1 heq
      exact toString_nat_injective hdigits
    · rintro rfl
      rfl
  simp only [opposite, hunit, hzero, false_or]

theorem negated?_eq_some_iff {value negative : String} (h : Scale.Length value) :
    negated? value = some negative ↔
      value.toList.head?.any Char.isDigit = true ∧ negative = opposite value := by
  rw [negated?, opposite_of_length h]
  cases hvalue : value.toList with
  | nil => simp
  | cons c cs =>
    cases hdigit : c.isDigit with
    | false => simp [hdigit]
    | true =>
      simp only [hdigit, Bool.not_true, Bool.false_eq_true, if_false, List.head?_cons, Option.any_some, true_and]
      rw [← apply_ite some, Option.some.injEq, eq_comm]

/-! ### Transforms -/

namespace Transform

/-- With either sign the same names are read, and with a minus sign the property has the opposite value. -/
def Mirrored (property : String) (read : Bool → Option String) : Prop :=
  ∃ value? : Option String, ∀ negative,
    read negative = value?.map fun value => declare [property] (if negative then opposite value else value)

namespace Mirrored

variable {α : Type} {property declarations : String} {read : Bool → Option String}

theorem bind {option : Option α} {read : α → Bool → Option String}
    (h : ∀ a ∈ option, Mirrored property (read a)) :
    Mirrored property fun negative => option.bind fun a => read a negative := by
  cases option with
  | none => exact ⟨none, fun _ => rfl⟩
  | some a => exact h a rfl

theorem true_iff (h : Mirrored property read) : read true = some declarations ↔
    ∃ value, read false = some (declare [property] value) ∧
      declarations = declare [property] (opposite value) := by
  obtain ⟨value?, hread⟩ := h
  rw [hread true, hread false]
  cases value? with
  | none => simp
  | some value =>
    simp only [Option.map_some, Option.some.injEq, declare_singleton_inj, Bool.false_eq_true, if_false, if_true]
    constructor
    · rintro rfl
      exact ⟨value, rfl, rfl⟩
    · rintro ⟨_, rfl, rfl⟩
      rfl

end Mirrored

variable {negative : Bool} {name property beginning value declarations : String}

theorem mirrored_translate? (property name beginning : String) :
    Mirrored property (translate? · property name beginning) := by
  refine .bind fun key _ => .bind fun _ _ => .bind fun value hvalue => ⟨value, fun negative => ?_⟩
  have hlength := Scale.length_of_translation? hvalue
  rw [Option.map_some, opposite_of_length hlength]
  cases negative with
  | false => rfl
  | true => by_cases hzero : value = "0" <;> simp [hzero]

theorem mirrored_rotate? (name : String) : Mirrored "--tw-rotate" (rotate? · name) := by
  refine .bind fun argument _ => .bind fun degrees _ => ⟨toString degrees ++ "deg", fun negative => ?_⟩
  rw [Option.map_some, opposite_angle]
  cases negative with
  | false => rfl
  | true =>
    by_cases hzero : degrees = 0
    · subst hzero
      rfl
    · have hsigned : (true && decide (degrees ≠ 0)) = true := by simp [hzero]
      simp only [hsigned, if_true, if_neg hzero]
      exact congrArg (fun value => some (declare ["--tw-rotate"] value)) String.append_assoc

theorem isPrefix_of_argument? {other argument argument' : String}
    (h : Formula.argument? beginning name = some argument) (h' : Formula.argument? other name = some argument') :
    beginning.toList <+: other.toList ∨ other.toList <+: beginning.toList := by
  obtain ⟨rest, hrest, -⟩ := Option.map_eq_some_iff.1 h
  obtain ⟨rest', hrest', -⟩ := Option.map_eq_some_iff.1 h'
  have hprefix : beginning.toList <+: name.toList := by
    rw [after?_eq_some hrest]
    exact List.prefix_append _ _
  have hprefix' : other.toList <+: name.toList := by
    rw [after?_eq_some hrest']
    exact List.prefix_append _ _
  exact List.prefix_or_prefix_of_prefix hprefix hprefix'

theorem translate?_eq_none {other argument : String} (h : Formula.argument? other name = some argument)
    (hapart : ¬(beginning.toList <+: other.toList ∨ other.toList <+: beginning.toList)) :
    translate? negative property name beginning = none := by
  cases hargument : Formula.argument? beginning name with
  | some argument => exact absurd (isPrefix_of_argument? hargument h) hapart
  | none =>
    rw [translate?, hargument]
    rfl

theorem property?_of_translate? (haxis : (property, beginning) ∈ axes)
    (h : translate? negative property name beginning = some declarations) :
    property? negative name = some declarations := by
  obtain ⟨argument, hargument, -⟩ := Option.bind_eq_some_iff.1 h
  rcases List.mem_pair.1 haxis with heq | heq
  · obtain ⟨rfl, rfl⟩ := Prod.mk.inj heq
    rw [property?, h]
    rfl
  · obtain ⟨rfl, rfl⟩ := Prod.mk.inj heq
    rw [property?, translate?_eq_none hargument (by decide), h]
    rfl

theorem property?_of_rotate? (h : rotate? negative name = some declarations) :
    property? negative name = some declarations := by
  obtain ⟨argument, hargument, -⟩ := Option.bind_eq_some_iff.1 h
  rw [property?, translate?_eq_none hargument (by decide), translate?_eq_none hargument (by decide), h]
  rfl

theorem property?_of_turned (h : Turned name property value) :
    property? false name = some (declare [property] value) ∧
      property? true name = some (declare [property] (opposite value)) := by
  cases h with
  | translated haxis h =>
    have hnegative := (mirrored_translate? property name _).true_iff.2 ⟨value, h, rfl⟩
    exact ⟨property?_of_translate? haxis h, property?_of_translate? haxis hnegative⟩
  | rotated h =>
    have hnegative := (mirrored_rotate? name).true_iff.2 ⟨value, h, rfl⟩
    exact ⟨property?_of_rotate? h, property?_of_rotate? hnegative⟩

theorem exists_turned (h : property? true name = some declarations) :
    ∃ property value, Turned name property value ∧ declarations = declare [property] (opposite value) := by
  have hscale : scale? true name = none := rfl
  simp only [property?, hscale, Option.orElse_eq_orElse, Option.orElse_eq_or, Option.or_none,
    Option.or_eq_some_iff] at h
  rcases h with h | ⟨-, h | ⟨-, h⟩⟩
  · obtain ⟨value, hvalue, hopposite⟩ := (mirrored_translate? _ _ _).true_iff.1 h
    exact ⟨_, value, .translated List.mem_cons_self hvalue, hopposite⟩
  · obtain ⟨value, hvalue, hopposite⟩ := (mirrored_translate? _ _ _).true_iff.1 h
    exact ⟨_, value, .translated (by decide) hvalue, hopposite⟩
  · obtain ⟨value, hvalue, hopposite⟩ := (mirrored_rotate? _).true_iff.1 h
    exact ⟨_, value, .rotated hvalue, hopposite⟩

end Transform

/-! ### Tokens -/

namespace Token

variable {naming : Naming} {token : Token} {resolution : Resolution} {setting : Setting} {value : String}

theorem eq_none_of_strategyOf? {found : Option Resolution} {name : String} {strategy other : Strategy}
    (h : ∀ resolution, found = some resolution → strategyOf? name = some strategy)
    (hname : strategyOf? name = some other) (hne : strategy ≠ other) : found = none := by
  cases found with
  | none => rfl
  | some resolution => exact absurd (Option.some.inj ((h resolution rfl).symm.trans hname)) hne

theorem resolve?_of_scaled? (harbitrary : token.arbitrary = none) (h : token.scaled? = some resolution) :
    token.resolve? naming = some resolution := by
  have hkeyword := eq_none_of_strategyOf? (fun _ => strategyOf?_keyword) (strategyOf?_scaled h) (by decide)
  simp only [resolve?, harbitrary, Option.isSome_none, Bool.false_eq_true, if_false, families,
    List.findSome?_cons, hkeyword, h]

theorem resolve?_of_transform? (harbitrary : token.arbitrary = none) (h : token.transform? = some resolution) :
    token.resolve? naming = some resolution := by
  have hname := strategyOf?_transform h
  have hkeyword := eq_none_of_strategyOf? (fun _ => strategyOf?_keyword) hname (by decide)
  have hscaled := eq_none_of_strategyOf? (fun _ => strategyOf?_scaled) hname (by decide)
  have hcomposite := eq_none_of_strategyOf? (fun _ => strategyOf?_composite) hname (by decide)
  have hformula := eq_none_of_strategyOf? (fun _ => strategyOf?_formula) hname (by decide)
  have hcolored : token.colored? naming = none := by
    cases hcolor : token.colored? naming with
    | none => rfl
    | some other =>
      exact absurd ((wordStrategy?_colored hcolor).symm.trans (wordStrategy?_transform h)) (by decide)
  simp only [resolve?, harbitrary, Option.isSome_none, Bool.false_eq_true, if_false, families,
    List.findSome?_cons, hkeyword, hscaled, hcolored, hcomposite, hformula, h]

theorem resolve?_of_negatable (token : Token) (harbitrary : token.arbitrary = none)
    (h : Negatable token.name setting value) (naming : Naming) : token.resolve? naming =
      some (setting.resolution (if token.negative then opposite value else value)) := by
  cases h with
  | scaled hcut hfamily hnegatable hvalue hdigit =>
    have hopposite := (negated?_eq_some_iff (Scale.length_of_value? hvalue)).2 ⟨hdigit, rfl⟩
    apply resolve?_of_scaled? harbitrary
    cases hsign : token.negative <;>
      simp [scaled?, hcut, hfamily, hvalue, hnegatable, hopposite, hsign, Setting.resolution, Setting.ofFamily]
  | transformed h =>
    obtain ⟨hpositive, hnegative⟩ := Transform.property?_of_turned h
    apply resolve?_of_transform? harbitrary
    cases hsign : token.negative <;>
      simp [transform?, hpositive, hnegative, hsign, Setting.resolution, Setting.ofTransform, String.append_assoc]

theorem exists_negatable_of_scaled? (h : ({ token with negative := true }).scaled? = some resolution) :
    ∃ setting value, Negatable token.name setting value ∧
      resolution = setting.resolution (opposite value) := by
  simp only [scaled?, Bool.not_true, Bool.false_eq_true, if_false, Option.bind_eq_bind,
    Option.bind_eq_some_iff] at h
  obtain ⟨⟨head, key⟩, hcut, family, hfamily, positive, hvalue, h⟩ := h
  split at h
  · rename_i hnegatable
    obtain ⟨value, hnegated, h⟩ := Option.bind_eq_some_iff.1 h
    obtain ⟨hdigit, rfl⟩ := (negated?_eq_some_iff (Scale.length_of_value? hvalue)).1 hnegated
    refine ⟨.ofFamily family, positive, .scaled hcut hfamily hnegatable hvalue hdigit, ?_⟩
    obtain rfl := Option.some.inj h
    simp [Setting.resolution, Setting.ofFamily]
  · cases h

theorem exists_negatable_of_transform? (h : ({ token with negative := true }).transform? = some resolution) :
    ∃ setting value, Negatable token.name setting value ∧
      resolution = setting.resolution (opposite value) := by
  obtain ⟨declarations, hproperty, rfl⟩ := Option.map_eq_some_iff.1 h
  obtain ⟨property, value, hturned, rfl⟩ := Transform.exists_turned hproperty
  refine ⟨.ofTransform property, value, .transformed hturned, ?_⟩
  simp [Setting.resolution, Setting.ofTransform, String.append_assoc]

theorem exists_negatable (h : ({ token with negative := true }).resolve? naming = some resolution) :
    token.arbitrary = none ∧ ∃ setting value, Negatable token.name setting value ∧
      resolution = setting.resolution (opposite value) := by
  have harbitrary : token.arbitrary = none := by
    cases hbrackets : token.arbitrary with
    | none => rfl
    | some brackets =>
      have hbracketing : Bracketing { token with negative := true } resolution _ _ :=
        bracketing_of_resolve? hbrackets h
      cases hbracketing.positive
  refine ⟨harbitrary, ?_⟩
  rw [resolve?, if_neg (by simp [harbitrary])] at h
  obtain ⟨family, hfamily, h⟩ := List.exists_of_findSome?_eq_some h
  simp only [families, List.mem_cons, List.not_mem_nil, or_false] at hfamily
  rcases hfamily with rfl | rfl | rfl | rfl | rfl | rfl | rfl | rfl
  · cases h
  · exact exists_negatable_of_scaled? h
  · cases h
  · cases h
  · cases h
  · exact exists_negatable_of_transform? h
  · cases h
  · cases h

/-- A token with a minus sign is resolved just when the same token without it is resolved to a value that can be
negated, and then by the same strategy to the same declarations with the opposite value. -/
theorem negation_mirrors (naming : Naming) (token : Token) (resolution : Resolution) :
    ({ token with negative := true }).resolve? naming = some resolution ↔
      ∃ setting value, (setting.strategy = .scale ∨ setting.strategy = .transform) ∧
        Negatable token.name setting value ∧
        ({ token with negative := false }).resolve? naming = some (setting.resolution value) ∧
        resolution = setting.resolution (opposite value) := by
  constructor
  · intro h
    obtain ⟨harbitrary, setting, value, hnegatable, hresolution⟩ := exists_negatable h
    have hpositive := resolve?_of_negatable { token with negative := false } harbitrary hnegatable naming
    refine ⟨setting, value, ?_, hnegatable, hpositive, hresolution⟩
    cases hnegatable with
    | scaled => exact .inl rfl
    | transformed => exact .inr rfl
  · rintro ⟨setting, value, hstrategy, hnegatable, hpositive, rfl⟩
    have hne : setting.strategy ≠ .arbitrary := by
      intro hsame
      simp [hsame] at hstrategy
    have harbitrary := arbitrary_eq_none hpositive hne
    exact resolve?_of_negatable { token with negative := true } harbitrary hnegatable naming

end Token

end UtilityCss
