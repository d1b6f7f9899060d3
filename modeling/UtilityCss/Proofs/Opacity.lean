import UtilityCss.Proofs.HexColors
import UtilityCss.Proofs.Percentages
import UtilityCss.Proofs.Vocabulary

/-!
# Opacities

A slash and a percentage behind the name of a color make the color translucent and leave everything else as it is.
Nothing but a percentage may stand behind the slash, and the percentage shows in the value only: a hexadecimal color
has it as a share behind its channels, a custom property is mixed with it, and a keyword does without.
-/

namespace UtilityCss
open Text Vocabulary

/-- What has a color: a property of an element, or a stop of a gradient. -/
inductive Use
  | property (family : ColorFamily)
  | stop (place : Gradient.Stop)
  deriving DecidableEq, Repr

namespace Use

def ofHead? (head : String) : Option Use :=
  ((ColorFamily.named.lookup head).map property).or ((Gradient.Stop.ofName? head).map stop)

def ofName? (name : String) : Option (Use × String) :=
  (cutFirst? '-' name).bind fun cut => (ofHead? cut.1).map fun use => (use, cut.2)

def strategy : Use → Strategy
  | property _ => .color
  | stop _ => .gradient

def resolution (value : String) : Use → Resolution
  | property family =>
    { strategy := .color, declarations := declare [family.property] value, suffix := family.suffix }
  | stop place => { strategy := .gradient, declarations := place.declarations value }

end Use

def TakesColor (name : String) (strategy : Strategy) : Prop :=
  strategy = .color ∨ strategy = .gradient ∧
    (beginsWith "from-" name ∨ beginsWith "via-" name ∨ beginsWith "to-" name)

/-- The value of a color, and the value that it has with an opacity of so many percent. -/
inductive Faded (amount : Nat) : String → String → Prop
  | hex {red green blue : Nat} {share : String} (hred : red < 256) (hgreen : green < 256) (hblue : blue < 256)
      (hshare : IsShortest share (amount / 100)) :
      Faded amount (hexText red green blue) s!"rgb({red} {green} {blue} / {share})"
  | variable {value : String} (property : String) (h : value = "var(--" ++ property ++ ")") :
      Faded amount value s!"color-mix(in srgb, {value} {amount}%, transparent)"
  | keyword {word : String} (h : word ∈ ["transparent", "currentColor", "inherit"]) : Faded amount word word

/-! ### Values -/

namespace Color

variable {naming : Naming} {name percent : String} {color : Color} {amount : Nat}

theorem mem_keywords_of_ofName? {word : String} (h : ofName? naming name = some (.keyword word)) :
    word ∈ ["transparent", "currentColor", "inherit"] := by
  have htable : ∀ p ∈ Palette.special, ¬beginsWith "#" p.2 →
      p.2 ∈ ["transparent", "currentColor", "inherit"] := by decide
  rw [ofName?] at h
  split at h
  · cases Option.some.inj h
  · split at h
    · rename_i value hvalue
      split at h
      · cases Option.some.inj h
      · rename_i hmark
        obtain rfl := Color.keyword.inj (Option.some.inj h)
        exact htable _ (mem_of_lookup_eq_some hvalue) hmark
    · simp only [Option.bind_eq_bind, Option.bind_eq_some_iff, Option.map_eq_some_iff] at h
      obtain ⟨cut, -, value, -, heq⟩ := h
      cases heq

theorem exists_faded (hname : ofName? naming name = some color) (h : IsPercent percent amount) :
    ∃ faded, color.translucent? percent = some faded ∧ Faded amount color.css faded := by
  have halpha := alpha?_eq_some_iff.2 ⟨amount, h, rfl⟩
  cases color with
  | hex digits =>
    obtain ⟨red, hred, green, hgreen, blue, hblue, rfl⟩ := isHexText_of_ofName? hname
    have hshare := Decimal.isShortest_render_hundredths h.amount_le
    refine ⟨_, ?_, .hex hred hgreen hblue hshare⟩
    simp only [translucent?, halpha, Rgb.ofHex?_hexText hred hgreen hblue, Option.bind_eq_bind, Option.bind_some]
    rfl
  | semantic property =>
    refine ⟨_, ?_, .variable property rfl⟩
    simp only [translucent?, halpha, h.digits?_eq, Option.bind_eq_bind, Option.bind_some]
  | keyword word =>
    refine ⟨word, ?_, .keyword (mem_keywords_of_ofName? hname)⟩
    rw [translucent?, halpha]
    rfl

theorem exists_isPercent {faded : String} (h : color.translucent? percent = some faded) :
    ∃ amount, IsPercent percent amount := by
  obtain ⟨share, halpha, -⟩ := Option.bind_eq_some_iff.1 h
  obtain ⟨amount, hamount, -⟩ := alpha?_eq_some_iff.1 halpha
  exact ⟨amount, hamount⟩

end Color

/-! ### Names -/

theorem cutFirst?_append {sep : Char} {text head rest : String} (h : cutFirst? sep text = some (head, rest))
    (ending : String) : cutFirst? sep (text ++ ending) = some (head, rest ++ ending) := by
  obtain ⟨htext, hhead⟩ := cutFirst?_eq_some h
  have hcut : firstCut? sep (text ++ ending).toList = some (head.toList, (rest ++ ending).toList) := by
    rw [String.toList_append, htext, List.append_assoc, List.cons_append, firstCut?_append_cons hhead,
      String.toList_append]
  rw [cutFirst?, hcut, Option.map_some]
  exact congrArg some (Prod.ext String.ofList_toList String.ofList_toList)

namespace Use

variable {name head rest : String} {use : Use}

theorem cases_of_ofHead? (h : ofHead? head = some use) :
    (∃ family, ColorFamily.named.lookup head = some family ∧ use = property family) ∨
      ∃ place, Gradient.Stop.ofName? head = some place ∧ use = stop place := by
  rcases Option.or_eq_some_iff.1 h with h | ⟨-, h⟩
  · obtain ⟨family, hfamily, rfl⟩ := Option.map_eq_some_iff.1 h
    exact .inl ⟨family, hfamily, rfl⟩
  · obtain ⟨place, hplace, rfl⟩ := Option.map_eq_some_iff.1 h
    exact .inr ⟨place, hplace, rfl⟩

theorem after?_of_stop {place : Gradient.Stop} (hcut : cutFirst? '-' name = some (head, rest))
    (hplace : Gradient.Stop.ofName? head = some place) : after? "bg-gradient-to-" name = none := by
  cases hcorner : after? "bg-gradient-to-" name with
  | none => rfl
  | some corner =>
    obtain ⟨hname, hdash⟩ := cutFirst?_eq_some hcut
    rw [after?_eq_some hcorner] at hname
    have hhead : "bg".toList = head.toList :=
      (append_cons_inj (y := "gradient-to-".toList ++ corner.toList) (by decide) hdash hname).1
    rw [← String.toList_inj.1 hhead] at hplace
    cases hplace

theorem strategyOf?_eq (hcut : cutFirst? '-' name = some (head, rest)) (huse : ofHead? head = some use)
    (hcolor : firstWord (bytesOf rest) ∈ colorWords) : strategyOf? name = some use.strategy := by
  have hinside : ∀ p ∈ ColorFamily.named, (bytesOf p.1).all isInside := by decide
  have hname := (cutFirst?_eq_some hcut).1
  rcases cases_of_ofHead? huse with ⟨family, hfamily, rfl⟩ | ⟨place, hplace, rfl⟩
  · have hentry := mem_of_lookup_eq_some hfamily
    have hreads : mayRead name .color := by
      rw [mayRead, bytesOf_of_cut hname, secondWord_append (hinside _ hentry)]
      exact isAmong_of_mem hcolor
    exact strategyOf?_of_word (wordStrategy?_of_cut hname (List.mem_map_of_mem hentry)) hreads
  · exact strategyOf?_of_word (wordStrategy?_of_cut hname (Token.mem_beginnings_of_stop hplace)) rfl

end Use

namespace Token

variable {naming : Naming} {token : Token} {resolution : Resolution} {head rest : String} {use : Use}

theorem resolve?_of_use (hpositive : token.negative = false) (harbitrary : token.arbitrary = none)
    (hopacity : token.EndsInOpacity) (hcut : cutFirst? '-' token.name = some (head, rest))
    (huse : Use.ofHead? head = some use) (hcolor : firstWord (bytesOf rest) ∈ colorWords) :
    token.resolve? naming = (token.colorAfter? naming rest).map (Use.resolution · use) := by
  have hname := Use.strategyOf?_eq hcut huse hcolor
  rcases Use.cases_of_ofHead? huse with ⟨family, hfamily, rfl⟩ | ⟨place, hplace, rfl⟩
  · rw [resolve?_eq_colored? hopacity harbitrary hname]
    cases hvalue : token.colorAfter? naming rest <;>
      simp [colored?, hpositive, hcut, hfamily, hvalue, Use.resolution]
  · have hstart := Use.after?_of_stop hcut hplace
    rw [resolve?_eq_gradient? hopacity harbitrary hname]
    cases hvalue : token.colorAfter? naming rest <;>
      simp [gradient?, hpositive, hcut, hstart, hplace, hvalue, Use.resolution]

/-! ### Names with a percentage -/

theorem opacity_ofParts {text : String} {variants : List String} {named : String × Bool}
    (h : (ofParts text variants named).arbitrary = none) :
    (ofParts text variants named).opacity = (opacityOf? named.1.toList).map String.ofList := by
  have hbrackets : (brackets? named.1.toList).map (fun p => (String.ofList p.1, String.ofList p.2)) = none := h
  rw [ofParts, hbrackets]
  rfl

theorem bracketed_name_ofParts {text key value : String} {variants : List String} {named : String × Bool}
    (h : (ofParts text variants named).arbitrary = some (key, value)) :
    ∃ ending, named.1.toList = key.toList ++ '-' :: '[' :: value.toList ++ ']' :: ending := by
  obtain ⟨⟨before, inside⟩, hbrackets, hpair⟩ := Option.map_eq_some_iff.1 h
  obtain ⟨rfl, rfl⟩ := Prod.mk.inj hpair
  obtain ⟨ending, hname, -⟩ := eq_of_brackets? hbrackets
  exact ⟨ending, by simpa using hname⟩

section Names

variable {name percent text : String} {variants : List String} {amount : Nat}

theorem propertiesOf?_of_slash {key : String} (h : '/' ∈ key.toList) (value : String) :
    Bracketed.propertiesOf? key value = none := by
  have hproperties : ∀ p ∈ Bracketed.properties, '/' ∉ p.1.toList := by decide
  have hcolors : ∀ p ∈ Bracketed.colorProperties, '/' ∉ p.1.toList := by decide
  have hlookup {table : List (String × List String)} (htable : ∀ p ∈ table, '/' ∉ p.1.toList) :
      table.lookup key = none := by
    cases hfound : table.lookup key with
    | none => rfl
    | some found => exact absurd h (htable _ (mem_of_lookup_eq_some hfound))
  rw [Bracketed.propertiesOf?, hlookup hcolors, hlookup hproperties]

theorem slash_mem_of_brackets {before after key ending : List Char} (h : '[' ∉ before)
    (heq : before ++ '/' :: after = key ++ '-' :: '[' :: ending) : '/' ∈ key := by
  have hsplit : before ++ '/' :: after = (key ++ ['-', '[']) ++ ending := by simpa using heq
  rcases List.append_eq_append_iff.1 hsplit with ⟨rest, hkey, hrest⟩ | ⟨rest, hbefore, -⟩
  · cases rest with
    | nil =>
      rw [List.append_nil] at hkey
      exact absurd (hkey ▸ by simp) h
    | cons c rest =>
      obtain ⟨rfl, -⟩ := List.cons.inj hrest
      have hmem : '/' ∈ key ++ ['-', '['] := by simp [hkey]
      simpa using hmem
  · exact absurd (by simp [hbefore]) h

theorem resolve?_of_brackets (hopening : '[' ∉ name.toList) {key value : String}
    (h : (ofParts text variants (name ++ "/" ++ percent, false)).arbitrary = some (key, value))
    (naming : Naming) : (ofParts text variants (name ++ "/" ++ percent, false)).resolve? naming = none := by
  obtain ⟨ending, hname⟩ := bracketed_name_ofParts h
  have hslash : '/' ∈ key.toList := slash_mem_of_brackets hopening (by simpa using hname)
  rw [resolve?, if_pos (by rw [h]; rfl), bracketed?, h]
  simp [propertiesOf?_of_slash hslash]

theorem arbitrary_of_isPercent (hclosing : ']' ∉ name.toList) (h : IsPercent percent amount) :
    (ofParts text variants (name ++ "/" ++ percent, false)).arbitrary = none := by
  cases harbitrary : (ofParts text variants (name ++ "/" ++ percent, false)).arbitrary with
  | none => rfl
  | some brackets =>
    obtain ⟨ending, hname⟩ := bracketed_name_ofParts harbitrary
    have hmem : ']' ∈ (name ++ "/" ++ percent).toList := by
      rw [hname]
      simp
    simp only [String.toList_append, List.mem_append, hclosing, false_or] at hmem
    rcases hmem with hmem | hmem
    · exact absurd hmem (by decide)
    · exact absurd (h.digits _ hmem) (by decide)

theorem opacity_of_isPercent (hclosing : ']' ∉ name.toList) (hname : name ≠ "") (h : IsPercent percent amount) :
    (ofParts text variants (name ++ "/" ++ percent, false)).opacity = some percent := by
  have hslash : '/' ∉ percent.toList := fun hmem => absurd (h.digits _ hmem) (by decide)
  have hcut : lastCut? '/' (name ++ "/" ++ percent).toList = some (name.toList, percent.toList) := by
    have hlist : (name ++ "/" ++ percent).toList = name.toList ++ '/' :: percent.toList := by simp
    rw [hlist, lastCut?_cons_append _ hslash]
  have hread : opacityOf? (name ++ "/" ++ percent).toList = some percent.toList := by
    rw [opacityOf?, hcut]
    simpa [hname, h.written] using h.digits
  rw [opacity_ofParts (arbitrary_of_isPercent hclosing h), hread, Option.map_some, String.ofList_toList]

end Names

theorem exists_isPercent_of_colorAfter? (hopacity : token.EndsInOpacity) {head rest percent value : String}
    (hcut : cutFirst? '-' token.name = some (head, rest ++ ("/" ++ percent))) (hrest : '/' ∉ rest.toList)
    (h : token.colorAfter? naming (rest ++ ("/" ++ percent)) = some value) :
    ∃ amount, IsPercent percent amount := by
  rw [colorAfter?_eq] at h
  obtain ⟨color, hname, hvalue⟩ := Option.bind_eq_some_iff.1 h
  have hcolor := slash_not_mem_of_ofName? hname
  have hwhole := congrArg String.toList (eq_colorIn_append hopacity hcut)
  cases hdigits : token.opacity with
  | none =>
    rw [hdigits, Option.elim_none, String.append_empty] at hwhole
    rw [← hwhole] at hcolor
    simp at hcolor
  | some digits =>
    rw [hdigits] at hvalue hwhole
    simp only [String.toList_append, Option.elim_some] at hwhole
    have hpercent := (append_cons_inj hrest hcolor hwhole).2
    rw [String.toList_inj.1 hpercent]
    exact Color.exists_isPercent hvalue

theorem colorAfter?_of_opacity (hopacity : token.EndsInOpacity) {head rest percent : String}
    (hcut : cutFirst? '-' token.name = some (head, rest ++ ("/" ++ percent)))
    (hpercent : token.opacity = some percent) :
    token.colorAfter? naming (rest ++ ("/" ++ percent)) =
      (Color.ofName? naming rest).bind fun color => color.translucent? percent := by
  have hwhole := eq_colorIn_append hopacity hcut
  rw [hpercent, Option.elim_some, String.append_left_inj] at hwhole
  rw [colorAfter?_eq, ← hwhole, hpercent]
  rfl

theorem opacity_of_slash {name text : String} {variants : List String} (hslash : '/' ∉ name.toList)
    (h : (ofParts text variants (name, false)).arbitrary = none) :
    (ofParts text variants (name, false)).opacity = none := by
  rw [opacity_ofParts h, opacityOf?, lastCut?_of_notMem hslash]
  rfl

theorem colorAfter?_of_no_opacity (h : token.opacity = none) (naming : Naming) (rest : String) :
    token.colorAfter? naming rest = (Color.ofName? naming rest).map Color.css := by
  rw [colorAfter?_eq, colorIn, h]
  cases Color.ofName? naming rest <;> rfl

theorem exists_use (harbitrary : token.arbitrary = none)
    (hopacity : token.EndsInOpacity) (h : token.resolve? naming = some resolution)
    (htakes : TakesColor token.name resolution.strategy) :
    ∃ head rest use value, cutFirst? '-' token.name = some (head, rest) ∧ Use.ofHead? head = some use ∧
      token.colorAfter? naming rest = some value ∧ resolution = use.resolution value := by
  have hstops : ∀ head ∈ beginnings .gradient, ColorFamily.named.lookup head = none := by decide
  have hname := strategyOf?_of_resolve? hopacity harbitrary h
  rcases htakes with hcolor | ⟨hgradient, hstop⟩
  · rw [hcolor] at hname
    rw [resolve?_eq_colored? hopacity harbitrary hname] at h
    simp only [colored?, Option.bind_eq_bind, Option.bind_eq_some_iff] at h
    obtain ⟨-, -, ⟨head, rest⟩, hcut, family, hfamily, value, hvalue, h⟩ := h
    refine ⟨head, rest, .property family, value, hcut, ?_, hvalue, (Option.some.inj h).symm⟩
    rw [Use.ofHead?, hfamily]
    rfl
  · rw [hgradient] at hname
    rw [resolve?_eq_gradient? hopacity harbitrary hname] at h
    simp only [gradient?, Option.bind_eq_bind, Option.bind_eq_some_iff] at h
    obtain ⟨-, -, h⟩ := h
    split at h
    · rename_i corner hcorner
      simp only [beginsWith, after?_eq_some hcorner] at hstop
      rcases hstop with hstop | hstop | hstop <;> cases hstop
    · simp only [Option.bind_eq_some_iff] at h
      obtain ⟨⟨head, rest⟩, hcut, place, hplace, value, hvalue, h⟩ := h
      refine ⟨head, rest, .stop place, value, hcut, ?_, hvalue, (Option.some.inj h).symm⟩
      rw [Use.ofHead?, hstops head (mem_beginnings_of_stop hplace), hplace]
      rfl

theorem arbitrary_of_takesColor (h : token.resolve? naming = some resolution)
    (htakes : TakesColor token.name resolution.strategy) : token.arbitrary = none := by
  refine arbitrary_eq_none h fun hbracketed => ?_
  rw [hbracketed] at htakes
  rcases htakes with hcolor | ⟨hgradient, -⟩
  · cases hcolor
  · cases hgradient

theorem nameText_of_takesColor (harbitrary : token.arbitrary = none) (hopacity : token.EndsInOpacity)
    (h : token.resolve? naming = some resolution) (htakes : TakesColor token.name resolution.strategy) :
    NameText token.name := by
  rw [resolve?, harbitrary] at h
  refine (known_of_families hopacity h).unbroken.resolve_left fun hbroken => ?_
  rcases htakes with hcolor | ⟨hgradient, -⟩
  · exact absurd (hcolor ▸ hbroken) (by decide)
  · exact absurd (hgradient ▸ hbroken) (by decide)

section Translucent

variable {name rest percent text : String} {variants : List String} {color : Color} {amount : Nat}

theorem resolve?_with_opacity (hcut : cutFirst? '-' name = some (head, rest)) (huse : Use.ofHead? head = some use)
    (hcolor : Color.ofName? naming rest = some color)
    (harbitrary : (ofParts text variants (name ++ "/" ++ percent, false)).arbitrary = none) :
    let token := ofParts text variants (name ++ "/" ++ percent, false)
    cutFirst? '-' token.name = some (head, rest ++ ("/" ++ percent)) ∧ token.EndsInOpacity ∧
      token.resolve? naming = (token.colorAfter? naming (rest ++ ("/" ++ percent))).map (Use.resolution · use) := by
  intro token
  have hcut' : cutFirst? '-' token.name = some (head, rest ++ ("/" ++ percent)) := by
    rw [← cutFirst?_append hcut, ← String.append_assoc]
    rfl
  have hword : firstWord (bytesOf (rest ++ ("/" ++ percent))) ∈ colorWords := by
    have hslash : bytesOf "/" = ['/'.toNat] := by decide
    rw [bytesOf_append, bytesOf_append, hslash, List.singleton_append, firstWord_append_cons (by decide)]
    exact firstWord_of_ofName? hcolor
  have hopacity : token.EndsInOpacity := endsInOpacity_of_name (opacity_ofParts harbitrary)
  exact ⟨hcut', hopacity, resolve?_of_use rfl harbitrary hopacity hcut' huse hword⟩

theorem exists_faded_of_isPercent (hname : NameText name) (hcut : cutFirst? '-' name = some (head, rest))
    (huse : Use.ofHead? head = some use) (hcolor : Color.ofName? naming rest = some color)
    (h : IsPercent percent amount) : ∃ faded, Faded amount color.css faded ∧
      (ofParts text variants (name ++ "/" ++ percent, false)).resolve? naming = some (use.resolution faded) := by
  have hclosing : ']' ∉ name.toList := fun hmem => absurd (hname _ hmem) (by decide)
  have hne : name ≠ "" := by
    rintro rfl
    cases hcut
  have harbitrary : (ofParts text variants (name ++ "/" ++ percent, false)).arbitrary = none :=
    arbitrary_of_isPercent hclosing h
  obtain ⟨hcut', hopacity, hread⟩ := resolve?_with_opacity hcut huse hcolor harbitrary
  obtain ⟨faded, htranslucent, hfaded⟩ := Color.exists_faded hcolor h
  refine ⟨faded, hfaded, ?_⟩
  rw [hread, colorAfter?_of_opacity hopacity hcut' (opacity_of_isPercent hclosing hne h), hcolor,
    Option.bind_some, htranslucent, Option.map_some]

theorem exists_isPercent_of_resolve? (hname : NameText name) (hcut : cutFirst? '-' name = some (head, rest))
    (huse : Use.ofHead? head = some use) (hcolor : Color.ofName? naming rest = some color)
    (h : (ofParts text variants (name ++ "/" ++ percent, false)).resolve? naming = some resolution) :
    ∃ amount, IsPercent percent amount := by
  have hopening : '[' ∉ name.toList := fun hmem => absurd (hname _ hmem) (by decide)
  cases harbitrary : (ofParts text variants (name ++ "/" ++ percent, false)).arbitrary with
  | some brackets =>
    rw [resolve?_of_brackets hopening harbitrary] at h
    cases h
  | none =>
    obtain ⟨hcut', hopacity, hread⟩ := resolve?_with_opacity hcut huse hcolor harbitrary
    rw [hread] at h
    obtain ⟨value, hvalue, -⟩ := Option.map_eq_some_iff.1 h
    exact exists_isPercent_of_colorAfter? hopacity hcut' (slash_not_mem_of_ofName? hcolor) hvalue

end Translucent

/-- A name that takes a color is resolved with a slash and a text behind it just when the text is a percentage, and
then alike but for the value of the color. -/
theorem opacity_fades (naming : Naming) {name text : String} {variants : List String} {resolution : Resolution}
    (hslash : '/' ∉ name.toList)
    (hresolve : (ofParts text variants (name, false)).resolve? naming = some resolution)
    (htakes : TakesColor name resolution.strategy) :
    ∃ use color value, Use.ofName? name = some (use, color) ∧ resolution = use.resolution value ∧
      ∀ (percent text' : String) (variants' : List String),
        let token := ofParts text' variants' (name ++ "/" ++ percent, false)
        ((token.resolve? naming).isSome ↔ ∃ amount, IsPercent percent amount) ∧
          ∀ amount, IsPercent percent amount → ∃ faded, Faded amount value faded ∧
            token.resolve? naming = some (use.resolution faded) := by
  have harbitrary := arbitrary_of_takesColor hresolve htakes
  have hopacity := endsInOpacity_of_name (opacity_ofParts harbitrary)
  have hname : NameText name := nameText_of_takesColor harbitrary hopacity hresolve htakes
  obtain ⟨head, rest, use, value, hcut, huse, hvalue, rfl⟩ := exists_use harbitrary hopacity hresolve htakes
  rw [colorAfter?_of_no_opacity (opacity_of_slash hslash harbitrary)] at hvalue
  obtain ⟨color, hcolor, rfl⟩ := Option.map_eq_some_iff.1 hvalue
  replace hcut : cutFirst? '-' name = some (head, rest) := hcut
  refine ⟨use, rest, color.css, by simp [Use.ofName?, hcut, huse], rfl, fun percent text' variants' => ?_⟩
  refine ⟨⟨fun hsome => ?_, fun ⟨amount, hpercent⟩ => ?_⟩, fun amount hpercent => ?_⟩
  · obtain ⟨other, hother⟩ := Option.isSome_iff_exists.1 hsome
    exact exists_isPercent_of_resolve? hname hcut huse hcolor hother
  · obtain ⟨faded, -, hfaded⟩ := exists_faded_of_isPercent hname hcut huse hcolor hpercent
    rw [hfaded]
    rfl
  · exact exists_faded_of_isPercent hname hcut huse hcolor hpercent

theorem opacity_fades_red :
    let token := ofParts "vibe-bg-red-500" [] ("bg-red-500", false)
    let translucent := ofParts "hover:vibe-bg-red-500/50" ["hover"] ("bg-red-500" ++ "/" ++ "50", false)
    let resolution : Resolution := { strategy := .color, declarations := "background-color: #ef4444;" }
    ofText? {} "vibe-bg-red-500" = some token ∧ ofText? {} "hover:vibe-bg-red-500/50" = some translucent ∧
      '/' ∉ "bg-red-500".toList ∧ token.resolve? {} = some resolution ∧
      TakesColor "bg-red-500" resolution.strategy ∧
      ∃ use color value, Use.ofName? "bg-red-500" = some (use, color) ∧ resolution = use.resolution value ∧
        IsPercent "50" 50 ∧ ∃ faded, Faded 50 value faded ∧
          translucent.resolve? {} = some (use.resolution faded) := by
  intro token translucent resolution
  have hread : ofText? {} "vibe-bg-red-500" = some token := by decide
  have hread' : ofText? {} "hover:vibe-bg-red-500/50" = some translucent := by decide
  have hslash : '/' ∉ "bg-red-500".toList := by decide
  have hresolve : token.resolve? {} = some resolution := by decide +kernel
  have htakes : TakesColor "bg-red-500" resolution.strategy := .inl rfl
  have hpercent : IsPercent "50" 50 := ⟨by decide, by decide, List.all_eq_true.1 rfl, rfl, by decide⟩
  obtain ⟨use, color, value, huse, hvalue, hfades⟩ := opacity_fades {} hslash hresolve htakes
  obtain ⟨faded, hfaded, htranslucent⟩ := (hfades "50" "hover:vibe-bg-red-500/50" ["hover"]).2 50 hpercent
  exact ⟨hread, hread', hslash, hresolve, htakes, use, color, value, huse, hvalue, hpercent, faded, hfaded,
    htranslucent⟩

end Token

end UtilityCss
