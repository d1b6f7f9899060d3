import UtilityCss.Proofs.LegibleTokens

/-!
# Utilities under different prefixes

A class prefix only marks a utility: with the prefix and without it, the same name is read the same way under
the same variants, and every family makes the same of it. The one trace that a prefix leaves is the custom
property of a semantic color, which begins with the prefix.
-/

namespace UtilityCss
open Text

/-! ### Reading -/

namespace Token

variable {naming other : Naming} {front rest : List Char} {variants : List String}
  {base name text : String}

def spelled : List String → String → String
  | [], base => base
  | variant :: variants, base => variant ++ ":" ++ spelled variants base

def Whole (cs : List Char) : Prop := ∀ c ∈ cs, c ≠ ':' ∧ c ≠ '[' ∧ c ≠ ']'

instance (cs : List Char) : Decidable (Whole cs) :=
  List.decidableBAll (fun c => c ≠ ':' ∧ c ≠ '[' ∧ c ≠ ']') cs

theorem Whole.append (h : Whole front) (hrest : Whole rest) : Whole (front ++ rest) :=
  fun c hc => (List.mem_append.1 hc).elim (h c) (hrest c)

theorem whole_of_isName (h : Variant.isName name) : Whole name.toList := by
  obtain ⟨variant, hvariant⟩ := Option.isSome_iff_exists.1 h
  intro c hc
  have hpart := (Selector.fits_of_ofName? hvariant).1 c hc
  refine ⟨?_, ?_, ?_⟩ <;> rintro rfl <;> exact absurd hpart (by decide)

theorem segmentsAt_append (h : Whole front) (rest : List Char) :
    segmentsAt 0 (front ++ rest) = (segmentsAt 0 rest).modifyHead (front ++ ·) := by
  induction front with
  | nil =>
    obtain ⟨part, parts, hparts⟩ := List.exists_cons_of_ne_nil (segmentsAt_ne_nil 0 rest)
    rw [List.nil_append, hparts]
    rfl
  | cons c front ih =>
    obtain ⟨hcolon, hopen, hclose⟩ := h c List.mem_cons_self
    have hdepth : depthAfter 0 c = 0 := by rw [depthAfter, if_neg hopen, if_neg hclose]
    rw [List.cons_append, segmentsAt, if_neg fun hc => hcolon hc.1, hdepth,
      ih fun d hd => h d (List.mem_cons_of_mem c hd), List.modifyHead_modifyHead]
    rfl

theorem segmentsAt_append_colon (h : Whole front) (rest : List Char) :
    segmentsAt 0 (front ++ ':' :: rest) = front :: segmentsAt 0 rest := by
  rw [segmentsAt_append h, segmentsAt, if_pos ⟨rfl, rfl⟩, List.modifyHead, List.append_nil]

theorem segments_spelled (hvariants : ∀ variant ∈ variants, Variant.isName variant) (base : String) :
    segments (spelled variants base) = variants ++ segments base := by
  induction variants with
  | nil => rfl
  | cons variant variants ih =>
    have htext : (spelled (variant :: variants) base).toList =
        variant.toList ++ ':' :: (spelled variants base).toList := by
      simp [spelled]
    have hwhole := whole_of_isName (hvariants variant List.mem_cons_self)
    rw [segments, htext, segmentsAt_append_colon hwhole, List.map_cons, String.ofList_toList,
      List.cons_append, ← ih fun other hother => hvariants other (List.mem_cons_of_mem variant hother)]
    rfl

theorem segments_append {front : String} (h : Whole front.toList) (hname : segments name = [name]) :
    segments (front ++ name) = [front ++ name] := by
  have hwhole : segmentsAt 0 name.toList = [name.toList] := by
    have := congrArg (List.map String.toList) hname
    simpa [segments, Function.comp_def] using this
  rw [segments, String.toList_append, segmentsAt_append h, hwhole]
  simp

theorem after?_append (start rest : String) : after? start (start ++ rest) = some rest := by
  rw [after?, List.isPrefixOf?_eq_some_iff_append_eq.2 String.toList_append.symm, Option.map_some,
    String.ofList_toList]

theorem signed_minus (name : String) : signed ("-" ++ name) = (name, true) := by
  rw [signed, after?_append]

theorem nameOf?_bare (h : naming.classPrefix = "") (base : String) :
    nameOf? naming base = some (signed base) := by
  rw [nameOf?, h]
  rfl

theorem nameOf?_marked (h : naming.classPrefix ≠ "") (name : String) :
    nameOf? naming (naming.marker ++ name) = some (signed name) := by
  rw [nameOf?, if_neg (by simpa using h), after?_append]

theorem nameOf?_minusMarked (h : naming.classPrefix ≠ "") (name : String) :
    nameOf? naming ("-" ++ naming.marker ++ name) = some (name, true) := by
  rw [nameOf?, if_neg (by simpa using h)]
  cases hafter : after? naming.marker ("-" ++ naming.marker ++ name) with
  | none => simp only [after?_append]
  | some rest =>
    have htext := after?_eq_some hafter
    have hcons : naming.marker.toList ++ rest.toList = '-' :: (naming.marker.toList ++ name.toList) := by
      rw [← htext]
      simp
    have hdashes := List.eq_replicate_of_mem (eq_of_append_eq_cons_append hcons)
    have hrest : rest = "-" ++ name := by
      rw [← String.toList_inj, String.toList_append]
      refine (List.append_right_inj naming.marker.toList).1 ?_
      rw [hcons, hdashes, ← List.cons_append, ← List.append_assoc, ← List.replicate_succ,
        List.replicate_succ']
      rfl
    rw [hrest]
    simp only [signed_minus]

def ofParts (text : String) (variants : List String) (named : String × Bool) : Token :=
  let arbitrary := (brackets? named.1.toList).map fun p => (String.ofList p.1, String.ofList p.2)
  let opacity := if arbitrary.isSome then none else (opacityOf? named.1.toList).map String.ofList
  { text, variants, name := named.1, negative := named.2, arbitrary, opacity }

theorem name_eq_of_nameOf?_empty {named : String × Bool} (h : nameOf? naming "" = some named) :
    named.1 = "" := by
  obtain ⟨front, -, hempty⟩ := exists_front h
  rw [← String.toList_inj]
  exact (List.append_eq_nil_iff.1 hempty.symm).2

theorem ofText?_eq (hsegments : segments text = variants ++ [base])
    (hvariants : ∀ variant ∈ variants, Variant.isName variant) :
    ofText? naming text = ((nameOf? naming base).filter fun named => !named.1.isEmpty).map
      (ofParts text variants) := by
  have hall : variants.all Variant.isName = true := List.all_eq_true.2 hvariants
  cases hnamed : nameOf? naming base with
  | none => simp [ofText?, hsegments, hnamed]
  | some named =>
    by_cases hname : named.1 = ""
    · simp [ofText?, hsegments, hnamed, hname, Option.filter]
    · have hbase : base ≠ "" := by
        rintro rfl
        exact hname (name_eq_of_nameOf?_empty hnamed)
      simp [ofText?, hsegments, hnamed, hname, hbase, hall, ofParts, Option.filter]

theorem ofText?_congr {otherText otherBase : String} (hsegments : segments text = variants ++ [base])
    (hothers : segments otherText = variants ++ [otherBase])
    (hvariants : ∀ variant ∈ variants, Variant.isName variant)
    (hnames : nameOf? naming base = nameOf? other otherBase) :
    ofText? other otherText = (ofText? naming text).map fun token => { token with text := otherText } := by
  rw [ofText?_eq hsegments hvariants, ofText?_eq hothers hvariants, hnames, Option.map_map]
  rfl

end Token

/-! ### Resolving -/

namespace Palette

def IsSemantic (color : String) : Prop := semantic.contains (surface color) = true

instance (color : String) : Decidable (IsSemantic color) :=
  inferInstanceAs (Decidable (semantic.contains (surface color) = true))

end Palette

namespace Color

def property (word color : String) : String := "var(--" ++ word ++ "-" ++ color ++ ")"

theorem ofName?_of_isSemantic {name : String} (h : Palette.IsSemantic name) (naming : Naming) :
    ofName? naming name = some (semantic (naming.variablePrefix ++ "-" ++ name)) := if_pos h

theorem ofName?_of_not_isSemantic {name : String} (h : ¬Palette.IsSemantic name) (naming other : Naming) :
    ofName? naming name = ofName? other name := (if_neg h).trans (if_neg h).symm

end Color

def Strategy.takesColors (strategy : Strategy) : Prop := strategy = .color ∨ strategy = .gradient

instance (strategy : Strategy) : Decidable strategy.takesColors :=
  inferInstanceAs (Decidable (strategy = .color ∨ strategy = .gradient))

namespace Token

/-- The name of a token ends in a color, after its first dash and before its opacity. -/
def EndsInColor (token : Token) (color : String) : Prop :=
  ∃ head : String, '-' ∉ head.toList ∧
    token.name = head ++ "-" ++ color ++ token.opacity.elim "" ("/" ++ ·)

theorem EndsInColor.unique {token : Token} {color other : String} (h : token.EndsInColor color)
    (hother : token.EndsInColor other) : color = other := by
  obtain ⟨head, hhead, hname⟩ := h
  obtain ⟨head', hhead', hname'⟩ := hother
  have heq := congrArg String.toList (hname.symm.trans hname')
  simp only [String.toList_append, List.append_assoc] at heq
  have hrest := (append_cons_inj hhead hhead' heq).2
  exact String.toList_inj.1 (List.append_cancel_right hrest)

def colorIn (token : Token) (rest : String) : String :=
  match token.opacity with
  | none => rest
  | some digits => String.ofList (rest.toList.take (rest.length - (digits.length + 1)))

theorem colorAfter?_eq (token : Token) (naming : Naming) (rest : String) :
    token.colorAfter? naming rest =
      (Color.ofName? naming (token.colorIn rest)).bind fun color => color.cssWith? token.opacity := by
  rw [colorAfter?, colorIn]
  cases token.opacity <;> rfl

theorem EndsInOpacity.suffix_of_cut {token : Token} (h : token.EndsInOpacity) {head rest digits : String}
    (hcut : Text.cutFirst? '-' token.name = some (head, rest)) (hdigits : token.opacity = some digits) :
    '/' :: digits.toList <:+ rest.toList := by
  obtain ⟨hname, -⟩ := cutFirst?_eq_some hcut
  obtain ⟨before, hend, hdigit⟩ := h digits hdigits
  have hslash : '-' ∉ '/' :: digits.toList := by
    intro hmem
    rcases List.mem_cons.1 hmem with hslash | hmem
    · exact absurd hslash (by decide)
    · exact absurd (hdigit '-' hmem) (by decide)
  have hends : '/' :: digits.toList <:+ token.name.toList := ⟨before, hend.symm⟩
  have hdash : '-' :: rest.toList <:+ token.name.toList := ⟨head.toList, hname.symm⟩
  rcases List.suffix_or_suffix_of_suffix hends hdash with h | h
  · exact (List.suffix_cons_iff.1 h).resolve_left fun heq => hslash (heq ▸ List.mem_cons_self)
  · exact absurd (h.subset List.mem_cons_self) hslash

theorem endsInColor_colorIn {token : Token} (hopacity : token.EndsInOpacity) {head rest : String}
    (hcut : Text.cutFirst? '-' token.name = some (head, rest)) : token.EndsInColor (token.colorIn rest) := by
  obtain ⟨hname, hhead⟩ := cutFirst?_eq_some hcut
  refine ⟨head, hhead, String.toList_inj.1 ?_⟩
  rw [colorIn]
  cases hdigits : token.opacity with
  | none => simpa using hname
  | some digits =>
    obtain ⟨color, hcolor⟩ := hopacity.suffix_of_cut hcut hdigits
    have hlength : rest.length - (digits.length + 1) = color.length := by
      rw [← String.length_toList, ← hcolor, List.length_append, List.length_cons, String.length_toList]
      omega
    simp only [String.toList_append, String.toList_ofList, hlength, hname, ← hcolor, List.take_left',
      Option.elim_some]
    simp

theorem eq_colorIn_append {token : Token} (hopacity : token.EndsInOpacity) {head rest : String}
    (hcut : Text.cutFirst? '-' token.name = some (head, rest)) :
    rest = token.colorIn rest ++ token.opacity.elim "" ("/" ++ ·) := by
  obtain ⟨hname, hhead⟩ := cutFirst?_eq_some hcut
  obtain ⟨other, hother, hends⟩ := endsInColor_colorIn hopacity hcut
  have heq := congrArg String.toList hends
  simp only [String.toList_append, List.append_assoc] at heq
  rw [hname] at heq
  rw [← String.toList_inj, String.toList_append]
  exact (append_cons_inj hhead hother heq).2

section Colors

variable {token : Token} {rest : String}

theorem colorAfter?_of_not_isSemantic (h : ¬Palette.IsSemantic (token.colorIn rest))
    (naming other : Naming) :
    token.colorAfter? naming rest = token.colorAfter? other rest := by
  rw [colorAfter?_eq, colorAfter?_eq, Color.ofName?_of_not_isSemantic h naming other]

theorem colorAfter?_of_isSemantic (h : Palette.IsSemantic (token.colorIn rest)) :
    (∀ naming, token.colorAfter? naming rest = none) ∨ ∃ before after, ∀ naming,
      token.colorAfter? naming rest =
        some (before ++ Color.property naming.variablePrefix (token.colorIn rest) ++ after) := by
  have hread (naming : Naming) : token.colorAfter? naming rest =
      (Color.semantic (naming.variablePrefix ++ "-" ++ token.colorIn rest)).cssWith? token.opacity := by
    rw [colorAfter?_eq, Color.ofName?_of_isSemantic h, Option.bind_some]
  have hcss (naming : Naming) :
      (Color.semantic (naming.variablePrefix ++ "-" ++ token.colorIn rest)).css =
        Color.property naming.variablePrefix (token.colorIn rest) := by
    simp only [Color.css, Color.property, String.append_assoc]
  simp only [hread]
  cases hopacity : token.opacity with
  | none =>
    refine .inr ⟨"", "", fun naming => ?_⟩
    rw [Color.cssWith?, hcss, String.empty_append, String.append_empty]
  | some percent =>
    simp only [Color.cssWith?, Color.translucent?, hcss]
    cases halpha : Color.alpha? percent with
    | none => exact .inl fun _ => rfl
    | some alpha =>
      cases hamount : Text.digits? 3 percent.toList with
      | none => exact .inl fun _ => rfl
      | some amount =>
        exact .inr ⟨"color-mix(in srgb, ", " " ++ toString amount ++ "%, transparent)", fun naming => by
          simp only [Option.bind_eq_bind, Option.bind_some, String.append_assoc]
          rfl⟩

end Colors

/-- What a token resolves to under each naming. The naming shows at most in one custom property. -/
inductive Uniform (token : Token) (read : Naming → Option Resolution) : Prop
  | unknown (h : ∀ naming, read naming = none)
  | fixed (resolution : Resolution)
      (hplain : resolution.strategy.takesColors → ∀ color, token.EndsInColor color →
        ¬Palette.IsSemantic color)
      (h : ∀ naming, read naming = some resolution)
  | varied (resolution : Resolution) (color before after : String)
      (htakes : resolution.strategy.takesColors) (hcolor : token.EndsInColor color)
      (hsemantic : Palette.IsSemantic color)
      (h : ∀ naming, read naming = some { resolution with
        declarations := before ++ Color.property naming.variablePrefix color ++ after })

namespace Uniform

variable {token : Token} {read next : Naming → Option Resolution}

theorem of_none : Uniform token fun _ => none := .unknown fun _ => rfl

theorem of_strategy {resolution : Option Resolution}
    (h : ∀ found ∈ resolution, ¬found.strategy.takesColors) :
    Uniform token fun _ => resolution := by
  cases resolution with
  | none => exact .of_none
  | some found => exact .fixed found (fun htakes => absurd htakes (h found rfl)) fun _ => rfl

theorem or (h : Uniform token read) (hnext : Uniform token next) :
    Uniform token fun naming => (read naming).or (next naming) := by
  cases h with
  | unknown h =>
    simp only [h, Option.none_or]
    exact hnext
  | fixed resolution hplain h => exact .fixed resolution hplain fun naming => by rw [h, Option.some_or]
  | varied resolution color before after htakes hcolor hsemantic h =>
    exact .varied resolution color before after htakes hcolor hsemantic fun naming => by
      rw [h, Option.some_or]

theorem of_color {rest before after : String} {resolution : Resolution}
    (hcolor : token.EndsInColor (token.colorIn rest)) (htakes : resolution.strategy.takesColors) :
    Uniform token fun naming => (token.colorAfter? naming rest).map fun value =>
      { resolution with declarations := before ++ value ++ after } := by
  by_cases hsemantic : Palette.IsSemantic (token.colorIn rest)
  · rcases colorAfter?_of_isSemantic hsemantic with hnone | ⟨start, finish, hvalue⟩
    · exact .unknown fun naming => by rw [hnone, Option.map_none]
    · refine .varied resolution (token.colorIn rest) (before ++ start) (finish ++ after) htakes hcolor
        hsemantic fun naming => ?_
      simp only [hvalue, Option.map_some, String.append_assoc]
  · have hsame := fun naming => colorAfter?_of_not_isSemantic hsemantic naming {}
    simp only [hsame]
    cases token.colorAfter? {} rest with
    | none => exact .of_none
    | some value =>
      refine .fixed _ (fun _ color hother => ?_) fun _ => rfl
      rwa [hother.unique hcolor]

end Uniform

section Families

variable {token : Token}

theorem declare_singleton (property value : String) :
    declare [property] value = property ++ ": " ++ value ++ ";" :=
  String.intercalate_singleton

theorem uniform_colored? (hopacity : token.EndsInOpacity) :
    Uniform token fun naming => token.colored? naming := by
  cases hnegative : token.negative with
  | true => simp [colored?, hnegative, Uniform.of_none]
  | false =>
    cases hcut : Text.cutFirst? '-' token.name with
    | none => simp [colored?, hcut, Uniform.of_none]
    | some cut =>
      obtain ⟨head, rest⟩ := cut
      cases hfamily : ColorFamily.named.lookup head with
      | none => simp [colored?, hcut, hfamily, Uniform.of_none]
      | some family =>
        let resolution : Resolution := { strategy := .color, declarations := "", suffix := family.suffix }
        have hread (naming : Naming) : token.colored? naming =
            (token.colorAfter? naming rest).map fun value =>
              { resolution with declarations := family.property ++ ": " ++ value ++ ";" } := by
          cases hvalue : token.colorAfter? naming rest <;>
            simp [colored?, hnegative, hcut, hfamily, hvalue, declare_singleton, resolution]
        simp only [hread]
        exact Uniform.of_color (endsInColor_colorIn hopacity hcut) (.inl rfl)

theorem exists_stopDeclarations (stop : Gradient.Stop) : ∃ before after, ∀ color,
    stop.declarations color = before ++ color ++ after := by
  cases stop with
  | start =>
    exact ⟨"--tw-gradient-from" ++ ": ", ";" ++ " " ++ declare ["--tw-gradient-stops"]
      ("var(--tw-gradient-from), " ++ Gradient.openEnd), fun color => by
        simp only [Gradient.Stop.declarations, declare_singleton, String.append_assoc]⟩
  | middle =>
    exact ⟨"--tw-gradient-stops" ++ ": " ++ "var(--tw-gradient-from), ", ", " ++ Gradient.openEnd ++ ";",
      fun color => by simp only [Gradient.Stop.declarations, declare_singleton, String.append_assoc]⟩
  | finish =>
    exact ⟨"--tw-gradient-to" ++ ": ", ";", fun color => by
      simp only [Gradient.Stop.declarations, declare_singleton]⟩

theorem not_isSemantic_direction {corner direction color : String} (hopacity : token.EndsInOpacity)
    (hcorner : Gradient.directions.lookup corner = some direction)
    (hafter : Text.after? "bg-gradient-to-" token.name = some corner) (hcolor : token.EndsInColor color) :
    ¬Palette.IsSemantic color := by
  have htable : ∀ p ∈ Gradient.directions,
      '/' ∉ ("bg-gradient-to-" ++ p.1).toList ∧ ¬Palette.IsSemantic ("gradient-to-" ++ p.1) := by decide
  obtain ⟨hslash, hplain⟩ := htable _ (mem_of_lookup_eq_some hcorner)
  have hname : token.name = "bg-gradient-to-" ++ corner := by
    rw [← String.toList_inj, after?_eq_some hafter, String.toList_append]
  have hnone : token.opacity = none := by
    rw [Option.eq_none_iff_forall_ne_some]
    intro digits hdigits
    obtain ⟨start, hend, -⟩ := hopacity digits hdigits
    rw [← hname, hend] at hslash
    exact hslash List.mem_append_cons_self
  have hdirection : token.EndsInColor ("gradient-to-" ++ corner) := by
    refine ⟨"bg", by decide, ?_⟩
    rw [hname, hnone, Option.elim_none, String.append_empty, ← String.append_assoc]
    rfl
  rwa [hcolor.unique hdirection]

theorem uniform_gradient? (hopacity : token.EndsInOpacity) :
    Uniform token fun naming => token.gradient? naming := by
  cases hnegative : token.negative with
  | true => simp [gradient?, hnegative, Uniform.of_none]
  | false =>
    cases hafter : Text.after? "bg-gradient-to-" token.name with
    | some corner =>
      cases hcorner : Gradient.directions.lookup corner with
      | none => simp [gradient?, hafter, hcorner, Uniform.of_none]
      | some direction =>
        refine .fixed {
            strategy := .gradient
            declarations := declare ["background-image"]
              ("linear-gradient(to " ++ direction ++ ", var(--tw-gradient-stops))") }
          (fun _ color => not_isSemantic_direction hopacity hcorner hafter) fun naming => ?_
        simp [gradient?, hnegative, hafter, hcorner]
    | none =>
      cases hcut : Text.cutFirst? '-' token.name with
      | none => simp [gradient?, hafter, hcut, Uniform.of_none]
      | some cut =>
        obtain ⟨head, rest⟩ := cut
        cases hstop : Gradient.Stop.ofName? head with
        | none => simp [gradient?, hafter, hcut, hstop, Uniform.of_none]
        | some stop =>
          obtain ⟨before, after, hstops⟩ := exists_stopDeclarations stop
          let resolution : Resolution := { strategy := .gradient, declarations := "" }
          have hread (naming : Naming) : token.gradient? naming =
              (token.colorAfter? naming rest).map fun value =>
                { resolution with declarations := before ++ value ++ after } := by
            cases hvalue : token.colorAfter? naming rest <;>
              simp [gradient?, hnegative, hafter, hcut, hstop, hvalue, hstops, resolution]
          simp only [hread]
          exact Uniform.of_color (endsInColor_colorIn hopacity hcut) (.inr rfl)

theorem uniform_of_map {α : Type} {found : Option α} {make : α → Resolution} {strategy : Strategy}
    (hplain : ¬strategy.takesColors) (hmake : ∀ a, (make a).strategy = strategy) :
    Uniform token fun _ => found.map make := by
  refine Uniform.of_strategy fun resolution hresolution => ?_
  obtain ⟨a, -, rfl⟩ := Option.map_eq_some_iff.1 hresolution
  rwa [hmake]

theorem uniform_of_unsigned {α : Type} {found : Option α} {make : α → Resolution}
    {strategy : Strategy} (hplain : ¬strategy.takesColors) (hmake : ∀ a, (make a).strategy = strategy) :
    Uniform token fun _ => if token.negative then none else found.map make := by
  split
  · exact .of_none
  · exact uniform_of_map hplain hmake

theorem strategy_of_scaled? {resolution : Resolution} (h : token.scaled? = some resolution) :
    resolution.strategy = .scale := by
  simp only [scaled?, Option.bind_eq_bind, Option.bind_eq_some_iff] at h
  obtain ⟨-, -, family, -, positive, -, h⟩ := h
  split at h
  · exact (congrArg Resolution.strategy (Option.some.inj h)).symm
  · split at h
    · obtain ⟨value, -, h⟩ := Option.bind_eq_some_iff.1 h
      exact (congrArg Resolution.strategy (Option.some.inj h)).symm
    · cases h

theorem uniform_scaled? : Uniform token fun _ => token.scaled? := by
  refine .of_strategy fun resolution hresolution => ?_
  rw [Strategy.takesColors, strategy_of_scaled? hresolution]
  decide

end Families

theorem findSome?_cons_eq_or {α β : Type} (f : α → Option β) (a : α) (l : List α) :
    (a :: l).findSome? f = (f a).or (l.findSome? f) := by
  rw [List.findSome?_cons]
  cases f a <;> rfl

theorem uniform_families {token : Token} (hopacity : token.EndsInOpacity) :
    Uniform token fun naming => (families naming).findSome? fun family => family token := by
  have hkeyword : Uniform token fun _ => token.keyword? :=
    uniform_of_unsigned (by decide : ¬Strategy.exact.takesColors) fun _ => rfl
  have hcomposite : Uniform token fun _ => token.composite? :=
    uniform_of_unsigned (by decide : ¬Strategy.composite.takesColors) fun _ => rfl
  have hformula : Uniform token fun _ => token.formula? :=
    uniform_of_unsigned (by decide : ¬Strategy.formula.takesColors) fun _ => rfl
  have htransform : Uniform token fun _ => token.transform? :=
    uniform_of_map (by decide : ¬Strategy.transform.takesColors) fun _ => rfl
  have heffect : Uniform token fun _ => token.effect? :=
    uniform_of_unsigned (by decide : ¬Strategy.multi.takesColors) fun _ => rfl
  simp only [families, findSome?_cons_eq_or, List.findSome?_nil]
  exact hkeyword.or (uniform_scaled?.or ((uniform_colored? hopacity).or (hcomposite.or (hformula.or
    (htransform.or ((uniform_gradient? hopacity).or (heffect.or .of_none)))))))

theorem uniform_resolve? {naming : Naming} {text base : String} {token : Token}
    (hparts : Parts naming text token base) : Uniform token fun naming => token.resolve? naming := by
  cases harbitrary : token.arbitrary with
  | some bracketed =>
    simp only [resolve?, harbitrary, Option.isSome_some, if_true]
    refine Uniform.of_strategy fun resolution hresolution => ?_
    obtain ⟨properties, -, -, rfl⟩ := (bracketing harbitrary hresolution).resolution
    simp [Strategy.takesColors]
  | none =>
    simp only [resolve?, harbitrary, Option.isSome_none, Bool.false_eq_true, if_false]
    exact uniform_families (hparts.endsInOpacity harbitrary)

structure Alike (token : Token) (word otherWord : String) (one two : Resolution) : Prop where
  strategy : one.strategy = two.strategy
  suffix : one.suffix = two.suffix
  companions : one.companions = two.companions
  keyframes : one.keyframes = two.keyframes
  semantic {color : String} (htakes : one.strategy.takesColors) (hcolor : token.EndsInColor color)
    (hsemantic : Palette.IsSemantic color) : ∃ before after,
      one.declarations = before ++ Color.property word color ++ after ∧
        two.declarations = before ++ Color.property otherWord color ++ after
  plain (h : one.strategy.takesColors → ∀ color, token.EndsInColor color → ¬Palette.IsSemantic color) :
    one.declarations = two.declarations

theorem Uniform.alike {token : Token} {read : Naming → Option Resolution} (h : Uniform token read)
    (naming other : Naming) :
    Option.Rel (Alike token naming.variablePrefix other.variablePrefix) (read naming) (read other) := by
  cases h with
  | unknown h =>
    rw [h, h]
    exact .none
  | fixed resolution hplain h =>
    rw [h, h]
    exact .some {
      strategy := rfl
      suffix := rfl
      companions := rfl
      keyframes := rfl
      semantic := fun htakes hcolor hsemantic => absurd hsemantic (hplain htakes _ hcolor)
      plain := fun _ => rfl }
  | varied resolution color before after htakes hcolor hsemantic h =>
    rw [h, h]
    exact .some {
      strategy := rfl
      suffix := rfl
      companions := rfl
      keyframes := rfl
      semantic := fun _ hother _ =>
        ⟨before, after, by rw [hother.unique hcolor], by rw [hother.unique hcolor]⟩
      plain := fun hplain => absurd hsemantic (hplain htakes color hcolor) }

/-- Two texts, each under its naming: neither is a token, or they are the same token but for the text, and the
token is no utility under either or resolves alike. -/
inductive ReadAlike (word otherWord : String) (naming other : Naming) (text otherText : String) : Prop
  | neither (htext : ofText? naming text = none) (hother : ofText? other otherText = none)
      (hexplain : naming.explain? text = none) (hexplainOther : other.explain? otherText = none)
  | both (token : Token) (htext : ofText? naming text = some token)
      (hother : ofText? other otherText = some { token with text := otherText })
      (halike : Option.Rel (Alike token word otherWord) (naming.explain? text) (other.explain? otherText))

variable {naming other : Naming} {variants : List String} {text otherText base otherBase name : String}

theorem readAlike_of_names (hsegments : segments text = variants ++ [base])
    (hothers : segments otherText = variants ++ [otherBase])
    (hvariants : ∀ variant ∈ variants, Variant.isName variant)
    (hnames : nameOf? naming base = nameOf? other otherBase) :
    ReadAlike naming.variablePrefix other.variablePrefix naming other text otherText := by
  have hcongr := ofText?_congr hsegments hothers hvariants hnames
  cases htext : ofText? naming text with
  | none =>
    rw [htext, Option.map_none] at hcongr
    exact .neither htext hcongr (by simp [Naming.explain?, htext]) (by simp [Naming.explain?, hcongr])
  | some token =>
    rw [htext, Option.map_some] at hcongr
    obtain ⟨_, hparts⟩ := exists_parts htext
    refine .both token htext hcongr ?_
    have halike := (uniform_resolve? hparts).alike naming other
    simp only [Naming.explain?, htext, hcongr, Option.bind_eq_bind, Option.bind_some]
    exact halike

end Token

/-- A name under a prefix and the same name without one are read alike and resolve alike. A prefix of dashes
only is no exception, nor is a name that holds the prefix again. -/
theorem explain_prefixed (naming : Naming) (permissive : Bool) (variants : List String) (name : String)
    (hmarked : naming.classPrefix ≠ "") (hwhole : Token.Whole naming.classPrefix.toList)
    (hvariants : ∀ variant ∈ variants, Variant.isName variant) (hname : Token.segments name = [name]) :
    Token.ReadAlike naming.classPrefix "vibe" naming { classPrefix := "", permissive }
        (Token.spelled variants (naming.marker ++ name)) (Token.spelled variants name) ∧
      Token.ReadAlike naming.classPrefix "vibe" naming { classPrefix := "", permissive }
        (Token.spelled variants ("-" ++ naming.marker ++ name)) (Token.spelled variants ("-" ++ name)) := by
  have hword : naming.variablePrefix = naming.classPrefix := if_neg (by simpa using hmarked)
  have hother : Naming.variablePrefix { classPrefix := "", permissive } = "vibe" := rfl
  have hmarker : Token.Whole naming.marker.toList := by
    rw [Naming.marker, String.toList_append]
    exact hwhole.append (by decide)
  have hminus : Token.Whole ("-" : String).toList := by decide
  have hminusMarker : Token.Whole ("-" ++ naming.marker).toList := by
    rw [String.toList_append]
    exact hminus.append hmarker
  have hsegments {base : String} (hbase : Token.segments base = [base]) :
      Token.segments (Token.spelled variants base) = variants ++ [base] := by
    rw [Token.segments_spelled hvariants, hbase]
  rw [← hword, ← hother]
  constructor
  · refine Token.readAlike_of_names (hsegments (Token.segments_append hmarker hname)) (hsegments hname)
      hvariants ?_
    rw [Token.nameOf?_marked hmarked, Token.nameOf?_bare rfl]
  · refine Token.readAlike_of_names (hsegments (Token.segments_append hminusMarker hname))
      (hsegments (Token.segments_append hminus hname)) hvariants ?_
    rw [Token.nameOf?_minusMarked hmarked, Token.nameOf?_bare rfl, Token.signed_minus]

theorem explain_prefixed_hover :
    let naming : Naming := { classPrefix := "my-app" }
    ∃ token, Token.ofText? naming "hover:my-app-bg-primary/50" = some token ∧
      Token.ofText? { classPrefix := "" } "hover:bg-primary/50" =
        some { token with text := "hover:bg-primary/50" } ∧
      Option.Rel (Token.Alike token "my-app" "vibe") (naming.explain? "hover:my-app-bg-primary/50")
        (Naming.explain? { classPrefix := "" } "hover:bg-primary/50") ∧
      ((naming.explain? "hover:my-app-bg-primary/50").map Resolution.declarations) =
        some "background-color: color-mix(in srgb, var(--my-app-primary) 50%, transparent);" := by
  intro naming
  have halike := (explain_prefixed naming false ["hover"] "bg-primary/50" (by decide) (by decide)
    (by decide) (by decide)).1
  cases halike with
  | neither _ _ hexplain => exact absurd hexplain (by decide +kernel)
  | both token htext hother halike => exact ⟨token, htext, hother, halike, by decide +kernel⟩

end UtilityCss
