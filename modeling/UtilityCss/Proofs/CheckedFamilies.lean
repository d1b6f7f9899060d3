import UtilityCss.Proofs.Equivariance
import UtilityCss.Proofs.HexColors

/-!
# Families that do not break

Each family of utilities, made of the steps that could break, with what it asks before it takes one: a pattern has
found the digits of a numeral, a table holds the key, an opacity is known to be one before it is read again. No
family breaks on a token, and each yields what `families` finds.
-/

namespace UtilityCss.Checked
open Text

/-! ### Lengths -/

def spacingValue (key : String) : Attempt String :=
  if key = "px" then pure "1px"
  else if key = "0" then pure "0"
  else if Scale.spacingKeys.contains key then do
    let index ← decimal key
    pure (index.quarter.render ++ "rem")
  else failure

def fractionValue (key : String) : Attempt String := do
  let (above, below) ← found (firstCut? '/' (withoutFinalNewline key.toList))
  let numerator ← numeral 2 above
  let denominator ← numeral 2 below
  if Scale.denominators.contains denominator && 0 < numerator && numerator < denominator then do
    let percent ← quotient (numerator * 100000000) denominator
    pure ((Decimal.millionths percent).render ++ "%")
  else failure

def relative (keywords : List (String × String)) (key : String) : Attempt String :=
  found (keywords.lookup key) <|> fractionValue key <|> spacingValue key

def scaleValue : Scale → String → Attempt String
  | .spacing, key => spacingValue key
  | .margin, key => if key = "auto" then pure "auto" else spacingValue key
  | .sizing, key => relative Scale.sizingKeywords key
  | .height, key => relative Scale.heightKeywords key
  | .inset, key => relative Scale.insetKeywords key

def translation (key : String) : Attempt String :=
  if key = "full" then pure "100%" else fractionValue key <|> spacingValue key

def negated (value : String) : Attempt String := do
  let first ← firstCharacter value
  if !first.isDigit then failure
  else if value = "0" then pure value
  else pure ("-" ++ value)

def scaled (token : Token) : Attempt Resolution := do
  let (head, key) ← found (cutLast? '-' token.name)
  let family ← found (ScaleFamily.named.lookup head)
  let positive ← scaleValue family.scale key
  let value ←
    if !token.negative then pure positive
    else if family.negatable then negated positive
    else failure
  pure {
    strategy := .scale
    declarations := declare family.properties value
    suffix := family.suffix }

theorem yields_spacingValue (key : String) : Yields (spacingValue key) (Scale.spacingValue? key) := by
  have hkeys : ∀ key ∈ Scale.spacingKeys, (Decimal.ofText? key).isSome := by decide
  rw [spacingValue, Scale.spacingValue?]
  refine .ite (fun _ => .of_pure _) fun _ => .ite (fun _ => .of_pure _) fun _ => .ite (fun h => ?_) fun _ => .of_failure
  obtain ⟨index, hindex⟩ := Option.isSome_iff_exists.1 (hkeys key (by simpa using h))
  rw [hindex]
  exact .step (required_eq_ok.2 hindex) (.of_pure _)

theorem yields_fractionValue (key : String) : Yields (fractionValue key) (Scale.fractionValue? key) := by
  rw [fractionValue, Scale.fractionValue?]
  refine (Yields.of_option _).bind fun cut _ => ?_
  obtain ⟨above, below⟩ := cut
  refine (Yields.numeral (by decide) above).bind fun numerator _ => ?_
  refine (Yields.numeral (by decide) below).bind fun denominator _ => ?_
  refine .ite (fun h => ?_) fun _ => .of_failure
  have hpositive : denominator ≠ 0 := by
    simp only [Bool.and_eq_true, decide_eq_true_eq] at h
    omega
  exact .step (required_eq_ok.2 (if_neg hpositive)) (.of_pure _)

theorem yields_relative (keywords : List (String × String)) (key : String) :
    Yields (relative keywords key) (Scale.relative? keywords key) :=
  (Yields.of_option _).orElse ((yields_fractionValue key).orElse (yields_spacingValue key))

theorem yields_scaleValue (scale : Scale) (key : String) :
    Yields (scaleValue scale key) (scale.value? key) := by
  cases scale with
  | spacing => exact yields_spacingValue key
  | margin => exact .ite (fun _ => .of_pure _) fun _ => yields_spacingValue key
  | sizing => exact yields_relative _ key
  | height => exact yields_relative _ key
  | inset => exact yields_relative _ key

theorem yields_translation (key : String) : Yields (translation key) (Scale.translation? key) :=
  .ite (fun _ => .of_pure _) fun _ => (yields_fractionValue key).orElse (yields_spacingValue key)

theorem yields_negated {value : String} (h : value ≠ "") : Yields (negated value) (negated? value) := by
  obtain ⟨c, cs, hvalue⟩ := List.exists_cons_of_ne_nil (mt String.toList_eq_nil_iff.1 h)
  rw [negated?, hvalue]
  refine .step (required_eq_ok.2 (by rw [hvalue]; rfl)) ?_
  exact .ite (fun _ => .of_failure) fun _ => .ite (fun _ => .of_pure _) fun _ => .of_pure _

theorem yields_scaled (token : Token) : Yields (scaled token) token.scaled? := by
  refine (Yields.of_option _).bind fun cut _ => ?_
  obtain ⟨head, key⟩ := cut
  refine (Yields.of_option _).bind fun family _ => ?_
  refine (yields_scaleValue family.scale key).bind fun positive hpositive => ?_
  refine .ite (fun _ => ?_) fun _ => .ite (fun _ => ?_) fun _ => ?_
  · exact (Yields.of_pure positive).bind fun value _ => .of_pure _
  · exact (yields_negated (Scale.length_of_value? hpositive).ne_empty).bind fun value _ => .of_pure _
  · exact Yields.of_failure.bind fun value _ => .of_pure _

/-! ### Colors -/

def alpha (percent : String) : Attempt String := do
  let amount ← numeral 3 percent.toList
  if amount ≤ 100 then pure (Decimal.hundredths amount).render else failure

def paletteColor (family shade : String) : Attempt String := do
  let wanted ← numeral 3 shade.toList
  let colors ← found (Palette.families.lookup family)
  found ((Palette.shades.zip colors).lookup wanted)

def colorOf (naming : Naming) (name : String) : Attempt Color :=
  if Palette.semantic.contains (Palette.surface name) then
    pure (.semantic (naming.variablePrefix ++ "-" ++ name))
  else
    match Palette.special.lookup name with
    | some value => pure (if beginsWith "#" value then .hex value else .keyword value)
    | none => do
      let (family, shade) ← found (cutLast? '-' name)
      Color.hex <$> paletteColor family shade

/-- The digits of an opacity are read again for a semantic color, without asking anew. -/
def translucent (color : Color) (percent : String) : Attempt String := do
  let alpha ← alpha percent
  match color with
  | .hex digits => do
    let rgb ← channels digits
    pure s!"rgb({rgb.red} {rgb.green} {rgb.blue} / {alpha})"
  | .semantic _ => do
    let amount ← number percent.toList
    pure s!"color-mix(in srgb, {color.css} {amount}%, transparent)"
  | .keyword word => pure word

def cssWith (color : Color) : Option String → Attempt String
  | none => pure color.css
  | some percent => translucent color percent

def colorAfter (naming : Naming) (token : Token) (rest : String) : Attempt String := do
  let name ← match token.opacity with
    | none => pure rest
    | some digits => liftM (withoutOpacity rest digits)
  let color ← colorOf naming name
  cssWith color token.opacity

def colored (naming : Naming) (token : Token) : Attempt Resolution := do
  guard (!token.negative)
  let (head, rest) ← found (cutFirst? '-' token.name)
  let family ← found (ColorFamily.named.lookup head)
  let value ← colorAfter naming token rest
  pure {
    strategy := .color
    declarations := declare [family.property] value
    suffix := family.suffix }

theorem yields_alpha (percent : String) : Yields (alpha percent) (Color.alpha? percent) := by
  refine (Yields.numeral (by decide) _).bind fun amount _ => ?_
  exact .ite (fun _ => .of_pure _) fun _ => .of_failure

theorem yields_paletteColor (family shade : String) :
    Yields (paletteColor family shade) (Palette.hex? family shade) := by
  refine (Yields.numeral (by decide) _).bind fun wanted _ => ?_
  exact (Yields.of_option _).bind fun colors _ => .of_option _

theorem yields_colorOf (naming : Naming) (name : String) :
    Yields (colorOf naming name) (Color.ofName? naming name) := by
  rw [colorOf, Color.ofName?]
  refine .ite (fun _ => .of_pure _) fun _ => ?_
  cases Palette.special.lookup name with
  | some value => exact .of_pure _
  | none =>
    refine (Yields.of_option _).bind fun cut _ => ?_
    exact (yields_paletteColor cut.1 cut.2).map _

theorem isHexColor_of_isHexText {color : String} (h : IsHexText color) : isHexColor color := by
  have hdigits : ∀ n < 16, (Rgb.hexDigit? (Nat.digitChar n)).isSome := by decide
  obtain ⟨red, hred, green, hgreen, blue, hblue, rfl⟩ := h
  have hpair {n : Nat} (hn : n < 256) : ∀ c ∈ hexPair n, (Rgb.hexDigit? c).isSome :=
    List.forall_mem_cons.2 ⟨hdigits _ (by omega), List.forall_mem_singleton.2 (hdigits _ (by omega))⟩
  have hall : ∀ c ∈ hexPair red ++ hexPair green ++ hexPair blue, (Rgb.hexDigit? c).isSome :=
    List.forall_mem_append.2 ⟨List.forall_mem_append.2 ⟨hpair hred, hpair hgreen⟩, hpair hblue⟩
  rw [isHexColor, hexText, String.toList_ofList]
  exact Bool.and_eq_true_iff.2 ⟨rfl, List.all_eq_true.2 hall⟩

theorem yields_translucent {color : Color} (hcolor : ∀ digits, color = .hex digits → isHexColor digits)
    (percent : String) : Yields (translucent color percent) (color.translucent? percent) := by
  refine (yields_alpha percent).bind fun alpha halpha => ?_
  cases color with
  | hex digits =>
    obtain ⟨rgb, hchannels, hrgb⟩ := channels_eq (hcolor digits rfl)
    simp only [hrgb]
    exact .step hchannels (.of_pure _)
  | semantic property =>
    obtain ⟨amount, hamount, -⟩ := Option.bind_eq_some_iff.1 halpha
    simp only [hamount]
    exact .step (number_eq (by decide) hamount) (.of_pure _)
  | keyword word => exact .of_pure _

theorem yields_colorAfter {token : Token} (hopacity : token.EndsInOpacity) {head rest : String}
    (hcut : cutFirst? '-' token.name = some (head, rest)) (naming : Naming) :
    Yields (colorAfter naming token rest) (token.colorAfter? naming rest) := by
  have hcolor (name : String) : Yields (colorOf naming name >>= fun color => cssWith color token.opacity)
      ((Color.ofName? naming name).bind fun color => color.cssWith? token.opacity) := by
    refine (yields_colorOf naming name).bind fun color hname => ?_
    cases token.opacity with
    | none => exact .of_pure _
    | some percent =>
      exact yields_translucent (fun digits heq => isHexColor_of_isHexText (isHexText_of_ofName? (heq ▸ hname))) percent
  rw [Token.colorAfter?_eq, colorAfter, Token.colorIn]
  cases hdigits : token.opacity with
  | none =>
    rw [hdigits] at hcolor
    exact hcolor rest
  | some digits =>
    rw [hdigits] at hcolor
    have hsuffix := List.isSuffixOf_iff_suffix.2 (hopacity.suffix_of_cut hcut hdigits)
    exact .step (required_eq_ok.2 (if_pos hsuffix)) (hcolor _)

theorem yields_colored {token : Token} (hopacity : token.EndsInOpacity) (naming : Naming) :
    Yields (colored naming token) (token.colored? naming) := by
  refine (Yields.of_guard _).bind fun _ _ => ?_
  refine (Yields.of_option _).bind fun cut hcut => ?_
  obtain ⟨head, rest⟩ := cut
  refine (Yields.of_option _).bind fun family _ => ?_
  exact (yields_colorAfter hopacity hcut naming).bind fun value _ => .of_pure _

/-! ### Formulas and transforms -/

def template (property count : String) : Attempt String :=
  if Formula.templateWords.contains count then pure (declare [property] count)
  else do
    let n ← numeral 2 count.toList
    if 1 ≤ n ∧ n ≤ Formula.maxTracks then pure (declare [property] s!"repeat({n}, minmax(0, 1fr))")
    else failure

def span (property count : String) : Attempt String :=
  match Formula.spanWords.lookup count with
  | some value => pure (declare [property] value)
  | none => do
    let n ← numeral 2 count.toList
    if 1 ≤ n ∧ n ≤ Formula.maxTracks then pure (declare [property] s!"span {n} / span {n}") else failure

def time (property milliseconds : String) : Attempt String :=
  (fun n : Nat => declare [property] s!"{n}ms") <$> numeral 5 milliseconds.toList

def order (property position : String) : Attempt String :=
  match Formula.orderWords.lookup position with
  | some value => pure (declare [property] value)
  | none => (fun n : Nat => declare [property] (toString n)) <$> numeral 2 position.toList

def formulas : List (String × String × (String → String → Attempt String)) := [
  ("grid-cols-", "grid-template-columns", template),
  ("grid-rows-", "grid-template-rows", template),
  ("col-span-", "grid-column", span),
  ("row-span-", "grid-row", span),
  ("duration-", "transition-duration", time),
  ("delay-", "transition-delay", time),
  ("order-", "order", order)]

def formula (token : Token) : Attempt Resolution :=
  if token.negative then failure
  else (fun declarations => { strategy := .formula, declarations }) <$>
    firstOf (fun (beginning, property, value) => do
      let argument ← found (Formula.argument? beginning token.name)
      value property argument) formulas

def translate (negative : Bool) (property name beginning : String) : Attempt String := do
  let key ← found (Formula.argument? beginning name)
  guard (!key.isEmpty && !key.contains '\n')
  let value ← translation key
  pure (declare [property] (if negative && value ≠ "0" then "-" ++ value else value))

def rotate (negative : Bool) (name : String) : Attempt String := do
  let argument ← found (Formula.argument? "rotate-" name)
  let degrees ← numeral 3 argument.toList
  pure (declare ["--tw-rotate"]
    (if negative && degrees ≠ 0 then s!"-{degrees}deg" else s!"{degrees}deg"))

def scale (negative : Bool) (name : String) : Attempt String := do
  guard (!negative)
  let argument ← found (Formula.argument? "scale-" name)
  let percent ← numeral 3 argument.toList
  pure (declare ["--tw-scale-x", "--tw-scale-y"] (Transform.factor percent))

def transform (token : Token) : Attempt Resolution :=
  (fun property => {
    strategy := .transform
    declarations := property ++ " " ++ Transform.composed }) <$>
  (translate token.negative "--tw-translate-x" token.name "translate-x-" <|>
    translate token.negative "--tw-translate-y" token.name "translate-y-" <|>
    rotate token.negative token.name <|>
    scale token.negative token.name)

theorem yields_template (property count : String) :
    Yields (template property count) (Formula.template? property count) := by
  refine .ite (fun _ => .of_pure _) fun _ => ?_
  refine (Yields.numeral (by decide) _).bind fun n _ => ?_
  exact .ite (fun _ => .of_pure _) fun _ => .of_failure

theorem yields_span (property count : String) :
    Yields (span property count) (Formula.span? property count) := by
  rw [span, Formula.span?]
  cases Formula.spanWords.lookup count with
  | some value => exact .of_pure _
  | none =>
    refine (Yields.numeral (by decide) _).bind fun n _ => ?_
    exact .ite (fun _ => .of_pure _) fun _ => .of_failure

theorem yields_time (property milliseconds : String) :
    Yields (time property milliseconds) (Formula.time? property milliseconds) :=
  (Yields.numeral (by decide) _).map _

theorem yields_order (property position : String) :
    Yields (order property position) (Formula.order? property position) := by
  rw [order, Formula.order?]
  cases Formula.orderWords.lookup position with
  | some value => exact .of_pure _
  | none => exact (Yields.numeral (by decide) _).map _

theorem yields_formula (token : Token) : Yields (formula token) token.formula? := by
  have hread {value : String → String → Attempt String} {value? : String → String → Option String}
      (h : ∀ property argument, Yields (value property argument) (value? property argument))
      (beginning property : String) :
      Yields (found (Formula.argument? beginning token.name) >>= fun argument => value property argument)
        (Formula.argument? beginning token.name >>= fun argument => value? property argument) :=
    (Yields.of_option _).bind fun argument _ => h property argument
  refine .ite (fun _ => .of_failure) fun _ => Yields.map (.firstOf ?_) _
  exact .cons (hread yields_template _ _) (.cons (hread yields_template _ _)
    (.cons (hread yields_span _ _) (.cons (hread yields_span _ _) (.cons (hread yields_time _ _)
      (.cons (hread yields_time _ _) (.cons (hread yields_order _ _) .nil))))))

theorem yields_translate (negative : Bool) (property name beginning : String) :
    Yields (translate negative property name beginning)
      (Transform.translate? negative property name beginning) := by
  refine (Yields.of_option _).bind fun key _ => ?_
  refine (Yields.of_guard _).bind fun _ _ => ?_
  exact (yields_translation key).bind fun value _ => .of_pure _

theorem yields_rotate (negative : Bool) (name : String) :
    Yields (rotate negative name) (Transform.rotate? negative name) := by
  refine (Yields.of_option _).bind fun argument _ => ?_
  exact (Yields.numeral (by decide) _).bind fun degrees _ => .of_pure _

theorem yields_scale (negative : Bool) (name : String) :
    Yields (scale negative name) (Transform.scale? negative name) := by
  refine (Yields.of_guard _).bind fun _ _ => ?_
  refine (Yields.of_option _).bind fun argument _ => ?_
  exact (Yields.numeral (by decide) _).bind fun percent _ => .of_pure _

theorem yields_transform (token : Token) : Yields (transform token) token.transform? :=
  ((yields_translate _ _ _ _).orElse ((yields_translate _ _ _ _).orElse
    ((yields_rotate _ _).orElse (yields_scale _ _)))).map _

/-! ### Gradients -/

def gradient (naming : Naming) (token : Token) : Attempt Resolution := do
  guard (!token.negative)
  match after? "bg-gradient-to-" token.name with
  | some corner => do
    let direction ← found (Gradient.directions.lookup corner)
    pure {
      strategy := .gradient
      declarations := declare ["background-image"]
        ("linear-gradient(to " ++ direction ++ ", var(--tw-gradient-stops))") }
  | none => do
    let (head, rest) ← found (cutFirst? '-' token.name)
    let stop ← found (Gradient.Stop.ofName? head)
    let color ← colorAfter naming token rest
    let declarations ← liftM (filled (stop.declarations (fieldMark "color")) "color" color)
    pure { strategy := .gradient, declarations }

theorem unbraced_stopDeclarations (stop : Gradient.Stop) : Unbraced (stop.declarations "") := by
  have hdeclare {property value : String} (hproperty : Unbraced property) (hvalue : Unbraced value) :
      Unbraced (declare [property] value) := by
    rw [Token.declare_singleton]
    exact ((hproperty.append (.ofList rfl)).append hvalue).append (.ofList rfl)
  cases stop with
  | start =>
    have hcolor : Unbraced (declare ["--tw-gradient-from"] "") := hdeclare (.ofList rfl) (.ofList rfl)
    exact (hcolor.append (.ofList rfl)).append (hdeclare (.ofList rfl) (.append (.ofList rfl) (.ofList rfl)))
  | middle =>
    have hstops : Unbraced ("var(--tw-gradient-from), " ++ "" ++ ", " ++ Gradient.openEnd) :=
      .append (.append (.append (.ofList rfl) (.ofList rfl)) (.ofList rfl)) (.ofList rfl)
    exact hdeclare (.ofList rfl) hstops
  | finish => exact hdeclare (.ofList rfl) (.ofList rfl)

theorem fills_stopDeclarations (stop : Gradient.Stop) :
    Fills "color" (stop.declarations (fieldMark "color")) fun color => stop.declarations color := by
  obtain ⟨before, after, hstop⟩ := Token.exists_stopDeclarations stop
  have hplain : ∀ c ∈ (before ++ after).toList, !isBrace c := by
    have hall := unbraced_stopDeclarations stop
    rwa [hstop, String.append_empty] at hall
  rw [String.toList_append] at hplain
  have hbefore : Fills "color" before fun _ => before :=
    .of_text (fun c hc => hplain c (List.mem_append_left _ hc)) _
  have hafter : Fills "color" after fun _ => after :=
    .of_text (fun c hc => hplain c (List.mem_append_right _ hc)) _
  simpa only [hstop, id] using (hbefore.append (.of_field "color")).append hafter

theorem yields_gradient {token : Token} (hopacity : token.EndsInOpacity) (naming : Naming) :
    Yields (gradient naming token) (token.gradient? naming) := by
  rw [gradient, Token.gradient?]
  refine (Yields.of_guard _).bind fun _ _ => ?_
  cases after? "bg-gradient-to-" token.name with
  | some corner => exact (Yields.of_option _).bind fun direction _ => .of_pure _
  | none =>
    refine (Yields.of_option _).bind fun cut hcut => ?_
    obtain ⟨head, rest⟩ := cut
    refine (Yields.of_option _).bind fun stop _ => ?_
    refine (yields_colorAfter hopacity hcut naming).bind fun color _ => ?_
    have hfilled := (fills_stopDeclarations stop).filled_eq (unbraced_stopDeclarations stop) color
    exact .step hfilled (.of_pure _)

/-! ### Every family -/

def families (naming : Naming) : List (Token → Attempt Resolution) := [
  fun token => found token.keyword?,
  scaled,
  colored naming,
  fun token => found token.composite?,
  formula,
  transform,
  gradient naming,
  fun token => found token.effect?]

def resolve (naming : Naming) (token : Token) : Attempt Resolution :=
  if token.arbitrary.isSome then found token.bracketed?
  else firstOf (fun family => family token) (families naming)

theorem yields_families {token : Token} (hopacity : token.EndsInOpacity) (naming : Naming) :
    Yields (firstOf (fun family => family token) (families naming))
      ((UtilityCss.families naming).findSome? fun family => family token) :=
  .firstOf (.cons (.of_option _) (.cons (yields_scaled token) (.cons (yields_colored hopacity naming)
    (.cons (.of_option _) (.cons (yields_formula token) (.cons (yields_transform token)
      (.cons (yields_gradient hopacity naming) (.cons (.of_option _) .nil))))))))

theorem yields_resolve {naming : Naming} {text base : String} {token : Token}
    (hparts : Token.Parts naming text token base) : Yields (resolve naming token) (token.resolve? naming) := by
  refine .ite (fun _ => .of_option _) fun hnone => yields_families (hparts.endsInOpacity ?_) naming
  simpa using hnone

end UtilityCss.Checked
