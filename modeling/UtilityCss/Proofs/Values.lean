import UtilityCss.Proofs.Tables
import UtilityCss.Proofs.TokenParts

/-!
# Values that names compute

A key of a scale, a color and the argument of a formula are made of the characters of utility names, and what
is computed from them is on one line and closes what it opens. One line feed may stand at the end of some of
them, where a pattern of the utility ends.
-/

namespace UtilityCss
open Text Block

namespace Text

def Plain (cs : List Char) : Prop := ∀ c ∈ withoutFinalNewline cs, isNamePart c

theorem mem_of_mem_withoutFinalNewline {c : Char} {cs : List Char}
    (h : c ∈ withoutFinalNewline cs) : c ∈ cs := by
  obtain ⟨ending, heq, -⟩ := exists_eq_withoutFinalNewline_append cs
  rw [heq]
  exact List.mem_append_left ending h

theorem plain_of_nameText {s : String} (h : NameText s) : Plain s.toList :=
  fun c hc => h c (mem_of_mem_withoutFinalNewline hc)

theorem Plain.prepend {before cs : List Char} (hb : ∀ c ∈ before, isNamePart c) (h : Plain cs) :
    Plain (before ++ cs) := by
  intro c hc
  cases cs with
  | nil =>
    rw [List.append_nil] at hc
    exact hb c (mem_of_mem_withoutFinalNewline hc)
  | cons d cs =>
    rw [withoutFinalNewline_append_cons, List.mem_append] at hc
    exact hc.elim (hb c) (h c)

theorem cutFirst?_eq_some {sep : Char} {s head tail : String}
    (h : cutFirst? sep s = some (head, tail)) :
    s.toList = head.toList ++ sep :: tail.toList ∧ sep ∉ head.toList := by
  obtain ⟨p, hp, heq⟩ := Option.map_eq_some_iff.1 h
  obtain ⟨rfl, rfl⟩ := Prod.mk.inj heq
  simpa using eq_of_firstCut? (x := p.1) (y := p.2) hp

theorem cutLast?_eq_some {sep : Char} {s head tail : String}
    (h : cutLast? sep s = some (head, tail)) :
    s.toList = head.toList ++ sep :: tail.toList ∧ sep ∉ tail.toList := by
  obtain ⟨p, hp, heq⟩ := Option.map_eq_some_iff.1 h
  obtain ⟨rfl, rfl⟩ := Prod.mk.inj heq
  simpa using eq_of_lastCut? (x := p.1) (y := p.2) hp

theorem isDigit_of_digits? {limit : Nat} {cs : List Char} {n : Nat} (h : digits? limit cs = some n) :
    ∀ c ∈ cs, c.isDigit := by
  rw [digits?] at h
  split at h
  · cases h
  · rename_i hcond
    simp only [Bool.or_eq_true, Bool.not_eq_true', not_or, Bool.not_eq_false] at hcond
    exact List.all_eq_true.1 hcond.2

end Text

namespace Scale

def wordLengths : List String :=
  ["1px", "0", "auto", "100%"] ++ (sizingKeywords ++ heightKeywords ++ insetKeywords).map Prod.snd

/-- What a scale writes. -/
inductive Length : String → Prop
  | word {value : String} (h : value ∈ wordLengths) : Length value
  | measured (number : Decimal) {unit : String} (h : unit ∈ ["rem", "%"]) : Length (number.render ++ unit)

variable {key value : String}

theorem length_of_spacingValue? (h : spacingValue? key = some value) : Length value := by
  rw [spacingValue?] at h
  split at h
  · obtain rfl := Option.some.inj h
    exact .word (by decide)
  · split at h
    · obtain rfl := Option.some.inj h
      exact .word (by decide)
    · split at h
      · obtain ⟨index, -, rfl⟩ := Option.map_eq_some_iff.1 h
        exact .measured index.quarter (by decide)
      · cases h

theorem length_of_fractionValue? (h : fractionValue? key = some value) : Length value := by
  simp only [fractionValue?, Option.bind_eq_bind, Option.bind_eq_some_iff] at h
  obtain ⟨-, -, numerator, -, denominator, -, h⟩ := h
  split at h
  · obtain rfl := Option.some.inj h
    exact .measured _ (by decide)
  · cases h

theorem length_of_relative? {keywords : List (String × String)}
    (hkeywords : ∀ p ∈ keywords, p.2 ∈ wordLengths) (h : relative? keywords key = some value) :
    Length value := by
  simp only [relative?, Option.orElse_eq_orElse, Option.orElse_eq_or, Option.or_eq_some_iff] at h
  rcases h with h | ⟨-, h | ⟨-, h⟩⟩
  · exact .word (hkeywords _ (mem_of_lookup_eq_some h))
  · exact length_of_fractionValue? h
  · exact length_of_spacingValue? h

theorem length_of_value? {scale : Scale} (h : scale.value? key = some value) : Length value := by
  cases scale with
  | spacing => exact length_of_spacingValue? h
  | margin =>
    rw [value?] at h
    split at h
    · obtain rfl := Option.some.inj h
      exact .word (by decide)
    · exact length_of_spacingValue? h
  | sizing => exact length_of_relative? (by decide) h
  | height => exact length_of_relative? (by decide) h
  | inset => exact length_of_relative? (by decide) h

theorem length_of_translation? (h : translation? key = some value) : Length value := by
  rw [translation?] at h
  split at h
  · obtain rfl := Option.some.inj h
    exact .word (by decide)
  · simp only [Option.orElse_eq_orElse, Option.orElse_eq_or, Option.or_eq_some_iff] at h
    rcases h with h | ⟨-, h⟩
    · exact length_of_fractionValue? h
    · exact length_of_spacingValue? h

theorem Length.getLast? (h : Length value) : value.toList.getLast?.any (· ≠ 'g') := by
  cases h with
  | word h =>
    have hwords : ∀ value ∈ wordLengths, value.toList.getLast?.any (· ≠ 'g') := by decide
    exact hwords value h
  | measured number h =>
    have hunits : ∀ unit ∈ ["rem", "%"], unit.toList.getLast?.any (· ≠ 'g') := by decide
    have hunit := hunits _ h
    obtain ⟨last, hlast, -⟩ := (Option.any_eq_true _ _).1 hunit
    rw [Option.mem_def.1 hlast] at hunit
    rw [String.toList_append, List.getLast?_append, Option.mem_def.1 hlast]
    exact hunit

theorem Length.ne_empty (h : Length value) : value ≠ "" := by
  rintro rfl
  exact absurd h.getLast? (by decide)

theorem Length.ne_zeroDegrees (h : Length value) : value ≠ "0deg" := by
  rintro rfl
  exact absurd h.getLast? (by decide)

theorem spacingValue?_spec (h : spacingValue? key = some value) :
    NameText key ∧ Contained value := by
  rw [spacingValue?] at h
  split at h
  · obtain rfl := Option.some.inj h
    exact ⟨by subst key; exact .ofList rfl, .ofList rfl⟩
  · split at h
    · obtain rfl := Option.some.inj h
      exact ⟨by subst key; exact .ofList rfl, .ofList rfl⟩
    · split at h
      · rename_i hkey
        obtain ⟨index, -, rfl⟩ := Option.map_eq_some_iff.1 h
        have hmem : key ∈ spacingKeys := by simpa using hkey
        exact ⟨nameText_of_mem_spacingKeys key hmem,
          Passes.append (contained_of_nameText (Decimal.nameText_render _)) (.ofList rfl)⟩
      · cases h

theorem fractionValue?_spec (h : fractionValue? key = some value) :
    Plain key.toList ∧ Contained value := by
  simp only [fractionValue?, Option.bind_eq_bind, Option.bind_eq_some_iff] at h
  obtain ⟨⟨above, below⟩, hcut, numerator, hnumerator, denominator, hdenominator, h⟩ := h
  split at h
  · obtain rfl := Option.some.inj h
    refine ⟨?_, Passes.append (contained_of_nameText (Decimal.nameText_render _)) (.ofList rfl)⟩
    intro c hc
    rw [(eq_of_firstCut? hcut).1, List.mem_append, List.mem_cons] at hc
    rcases hc with hc | rfl | hc
    · exact isNamePart_of_isDigit (isDigit_of_digits? hnumerator c hc)
    · decide
    · exact isNamePart_of_isDigit (isDigit_of_digits? hdenominator c hc)
  · cases h

theorem relative?_spec {keywords : List (String × String)} (hk : IsTable Contained keywords)
    (h : relative? keywords key = some value) :
    Plain key.toList ∧ Contained value := by
  simp only [relative?, Option.orElse_eq_orElse, Option.orElse_eq_or, Option.or_eq_some_iff] at h
  rcases h with h | ⟨-, h | ⟨-, h⟩⟩
  · exact ⟨plain_of_nameText (hk.lookup h).1, (hk.lookup h).2⟩
  · exact fractionValue?_spec h
  · exact ⟨plain_of_nameText (spacingValue?_spec h).1, (spacingValue?_spec h).2⟩

theorem value?_spec {scale : Scale} (h : scale.value? key = some value) :
    Plain key.toList ∧ Contained value := by
  have hspacing {value : String} (h : spacingValue? key = some value) :
      Plain key.toList ∧ Contained value :=
    ⟨plain_of_nameText (spacingValue?_spec h).1, (spacingValue?_spec h).2⟩
  cases scale with
  | spacing => exact hspacing h
  | margin =>
    simp only [value?] at h
    split at h
    · obtain rfl := Option.some.inj h
      exact ⟨by subst key; exact plain_of_nameText (.ofList rfl), .ofList rfl⟩
    · exact hspacing h
  | sizing => exact relative?_spec isTable_sizingKeywords h
  | height => exact relative?_spec isTable_heightKeywords h
  | inset => exact relative?_spec isTable_insetKeywords h

theorem translation?_spec (h : translation? key = some value) :
    Plain key.toList ∧ Contained value := by
  rw [translation?] at h
  split at h
  · obtain rfl := Option.some.inj h
    exact ⟨by subst key; exact plain_of_nameText (.ofList rfl), .ofList rfl⟩
  · simp only [Option.orElse_eq_orElse, Option.orElse_eq_or, Option.or_eq_some_iff] at h
    rcases h with h | ⟨-, h⟩
    · exact fractionValue?_spec h
    · exact ⟨plain_of_nameText (spacingValue?_spec h).1, (spacingValue?_spec h).2⟩

end Scale

namespace Color

theorem lasting_translucent? {p : String → Prop} (hp : Lasting p) {color : Color}
    {percent value : String} (hc : p color.css) (h : color.translucent? percent = some value) :
    p value := by
  simp only [translucent?, Option.bind_eq_bind, Option.bind_eq_some_iff] at h
  obtain ⟨alpha, halpha, h⟩ := h
  have hshare : Contained alpha := by
    simp only [alpha?, Option.bind_eq_bind, Option.bind_eq_some_iff] at halpha
    obtain ⟨amount, -, halpha⟩ := halpha
    split at halpha
    · obtain rfl := Option.some.inj halpha
      exact contained_of_nameText (Decimal.nameText_render _)
    · cases halpha
  cases color with
  | hex digits =>
    obtain ⟨rgb, -, h⟩ := Option.bind_eq_some_iff.1 h
    obtain rfl := Option.some.inj h
    have hchannel (n : Int) : Passes [.round] (toString n) [.round] :=
      .within (contained_of_nameText (nameText_toString_int n)) _
    have hspace : Passes [.round] " " [.round] := .ofList rfl
    have hred : Passes [] ("rgb(" ++ toString rgb.red) [.round] :=
      .append (.ofList rfl) (hchannel _)
    have hgreen := (hred.append hspace).append (hchannel rgb.green)
    have hblue := (hgreen.append hspace).append (hchannel rgb.blue)
    exact hp.contained (((hblue.append (.ofList rfl)).append (hshare.within _)).append (.ofList rfl))
  | semantic property =>
    obtain ⟨amount, -, h⟩ := Option.bind_eq_some_iff.1 h
    obtain rfl := Option.some.inj h
    have hamount : Passes [.round] (" " ++ toString amount) [.round] :=
      .append (.ofList rfl) (.within (contained_of_nameText (nameText_toString amount)) _)
    have hmix : p ("color-mix(in srgb, " ++ (semantic property).css ++
        (" " ++ toString amount ++ "%, transparent)")) :=
      hp.around (.ofList rfl) (hamount.append (.ofList rfl)) hc
    simpa only [String.append_assoc, toString] using hmix
  | keyword word =>
    obtain rfl := Option.some.inj h
    exact hc

theorem lasting_cssWith? {p : String → Prop} (hp : Lasting p) {color : Color}
    {opacity : Option String} {value : String} (hc : p color.css)
    (h : color.cssWith? opacity = some value) : p value := by
  cases opacity with
  | none =>
    obtain rfl := Option.some.inj h
    exact hc
  | some percent => exact lasting_translucent? hp hc h

theorem eq_surface (name : String) : name = Palette.surface name ∨
    name.toList = (Palette.surface name).toList ++ "-foreground".toList := by
  simp only [Palette.surface]
  split
  · rename_i hending
    obtain ⟨before, hname⟩ := List.isSuffixOf_iff_suffix.1 hending
    have htake : name.toList.take (name.length - "-foreground".toList.length) = before := by
      rw [← hname, ← String.length_toList, ← hname, List.length_append, Nat.add_sub_cancel,
        List.take_left]
    rw [htake, String.toList_ofList]
    exact .inr hname.symm
  · exact .inl rfl

theorem nameText_of_semantic {name : String}
    (h : Palette.semantic.contains (Palette.surface name)) : NameText name := by
  have hword := Palette.nameText_of_mem_semantic _ (List.contains_iff_mem.1 h)
  rcases eq_surface name with hname | hname
  · rwa [hname]
  · have hforeground : NameText "-foreground" := .ofList rfl
    intro c hc
    rw [hname, ← String.toList_append] at hc
    exact hword.append hforeground c hc

theorem ofName?_spec {naming : Naming} {name : String} {color : Color}
    (h : ofName? naming name = some color) :
    NameText name ∧ ∀ {p : String → Prop}, Lasting p → p naming.variablePrefix → p color.css := by
  rw [ofName?] at h
  split at h
  · rename_i hsemantic
    obtain rfl := Option.some.inj h
    have hname := nameText_of_semantic hsemantic
    refine ⟨hname, fun {p} hp hpre => ?_⟩
    have hname' : Passes [.round] ("-" ++ name) [.round] :=
      .append (.ofList rfl) (.within (contained_of_nameText hname) _)
    have hvariable : p ("var(--" ++ naming.variablePrefix ++ ("-" ++ name ++ ")")) :=
      hp.around (.ofList rfl) (hname'.append (.ofList rfl)) hpre
    simpa only [css, String.append_assoc] using hvariable
  · split at h
    · rename_i value hvalue
      obtain rfl := Option.some.inj h
      obtain ⟨hname, hline⟩ := Palette.isTable_special.lookup hvalue
      refine ⟨hname, fun hp _ => hp.contained ?_⟩
      split <;> exact hline
    · simp only [Option.bind_eq_bind, Option.bind_eq_some_iff] at h
      obtain ⟨⟨family, shade⟩, hcut, h⟩ := h
      obtain ⟨value, hvalue, rfl⟩ := Option.map_eq_some_iff.1 h
      simp only [Palette.hex?, Option.bind_eq_bind, Option.bind_eq_some_iff] at hvalue
      obtain ⟨wanted, hwanted, colors, hcolors, hvalue⟩ := hvalue
      obtain ⟨hfamily, hcolor⟩ := Palette.isTable_families.lookup hcolors
      obtain ⟨before, after, hzip, -⟩ := List.lookup_eq_some_iff.1 hvalue
      have hmem : (wanted, value) ∈ Palette.shades.zip colors := by rw [hzip]; simp
      refine ⟨?_, fun hp _ => hp.contained (hcolor value (List.of_mem_zip hmem).2)⟩
      intro c hc
      rw [(cutLast?_eq_some hcut).1, List.mem_append, List.mem_cons] at hc
      rcases hc with hc | rfl | hc
      · exact hfamily c hc
      · decide
      · exact isNamePart_of_isDigit (isDigit_of_digits? hwanted c hc)

end Color

namespace Formula

/-- A formula computes one line of declarations, and only from arguments made as utility names are. -/
def Computes (value? : String → String → Option String) : Prop :=
  ∀ property argument declarations, Contained property →
    value? property argument = some declarations → NameText argument ∧ Contained declarations

theorem nameText_of_digits? {limit : Nat} {argument : String} {n : Nat}
    (h : digits? limit argument.toList = some n) : NameText argument :=
  fun c hc => isNamePart_of_isDigit (isDigit_of_digits? h c hc)

theorem computes_template? : Computes template? := by
  intro property argument declarations hp h
  rw [template?] at h
  split at h
  · rename_i hword
    obtain rfl := Option.some.inj h
    have hname := nameText_of_mem_templateWords argument (List.contains_iff_mem.1 hword)
    exact ⟨hname, contained_declare_singleton hp (contained_of_nameText hname)⟩
  · simp only [Option.bind_eq_bind, Option.bind_eq_some_iff] at h
    obtain ⟨n, hn, h⟩ := h
    split at h
    · obtain rfl := Option.some.inj h
      have hvalue : Contained ("repeat(" ++ toString n ++ ", minmax(0, 1fr))") :=
        .append (.append (.ofList rfl) (.within (contained_of_nameText (nameText_toString n)) _))
          (.ofList rfl)
      exact ⟨nameText_of_digits? hn, contained_declare_singleton hp hvalue⟩
    · cases h

theorem computes_span? : Computes span? := by
  intro property argument declarations hp h
  rw [span?] at h
  split at h
  · rename_i value hlookup
    obtain rfl := Option.some.inj h
    obtain ⟨hname, hvalue⟩ := isTable_spanWords.lookup hlookup
    exact ⟨hname, contained_declare_singleton hp hvalue⟩
  · simp only [Option.bind_eq_bind, Option.bind_eq_some_iff] at h
    obtain ⟨n, hn, h⟩ := h
    split at h
    · obtain rfl := Option.some.inj h
      have hvalue : Contained ("span " ++ toString n ++ " / span " ++ toString n) :=
        .append (.append (.append (.ofList rfl) (contained_of_nameText (nameText_toString n))) (.ofList rfl))
          (contained_of_nameText (nameText_toString n))
      exact ⟨nameText_of_digits? hn, contained_declare_singleton hp hvalue⟩
    · cases h

theorem computes_time? : Computes time? := by
  intro property argument declarations hp h
  obtain ⟨n, hn, rfl⟩ := Option.map_eq_some_iff.1 h
  have hvalue : Contained (toString n ++ "ms") :=
    .append (contained_of_nameText (nameText_toString n)) (.ofList rfl)
  exact ⟨nameText_of_digits? hn, contained_declare_singleton hp hvalue⟩

theorem computes_order? : Computes order? := by
  intro property argument declarations hp h
  rw [order?] at h
  split at h
  · rename_i value hlookup
    obtain rfl := Option.some.inj h
    obtain ⟨hname, hvalue⟩ := isTable_orderWords.lookup hlookup
    exact ⟨hname, contained_declare_singleton hp hvalue⟩
  · obtain ⟨n, hn, rfl⟩ := Option.map_eq_some_iff.1 h
    have hvalue : Contained (toString n) := contained_of_nameText (nameText_toString n)
    exact ⟨nameText_of_digits? hn, contained_declare_singleton hp hvalue⟩

theorem isTable_named :
    IsTable (fun formula => Contained formula.1 ∧ Computes formula.2) named := by
  refine .cons rfl ⟨.ofList rfl, computes_template?⟩ ?_
  refine .cons rfl ⟨.ofList rfl, computes_template?⟩ ?_
  refine .cons rfl ⟨.ofList rfl, computes_span?⟩ ?_
  refine .cons rfl ⟨.ofList rfl, computes_span?⟩ ?_
  refine .cons rfl ⟨.ofList rfl, computes_time?⟩ ?_
  refine .cons rfl ⟨.ofList rfl, computes_time?⟩ ?_
  exact .cons rfl ⟨.ofList rfl, computes_order?⟩ .nil

theorem plain_of_argument? {beginning name argument : String} (hb : NameText beginning)
    (ha : NameText argument) (h : argument? beginning name = some argument) :
    Plain name.toList := by
  obtain ⟨rest, hrest, rfl⟩ := Option.map_eq_some_iff.1 h
  rw [after?_eq_some hrest]
  refine Plain.prepend hb fun c hc => ha c ?_
  rwa [String.toList_ofList]

theorem declarations?_spec {name declarations : String} (h : declarations? name = some declarations) :
    Plain name.toList ∧ Contained declarations := by
  obtain ⟨⟨beginning, property, value?⟩, hmem, h⟩ := List.exists_of_findSome?_eq_some h
  obtain ⟨hbeginning, hproperty, hcomputes⟩ := isTable_named _ hmem
  obtain ⟨argument, hargument, hvalue⟩ := Option.bind_eq_some_iff.1 h
  obtain ⟨hname, hline⟩ := hcomputes property argument declarations hproperty hvalue
  exact ⟨plain_of_argument? hbeginning hname hargument, hline⟩

end Formula

namespace Transform

theorem contained_composed : Contained composed :=
  contained_declare_singleton (.ofList rfl) (.append (.ofList rfl) (.ofList rfl))

theorem translate?_spec {negative : Bool} {property name beginning declarations : String}
    (hp : Contained property) (hb : NameText beginning)
    (h : translate? negative property name beginning = some declarations) :
    Plain name.toList ∧ Contained declarations := by
  simp only [translate?, Option.bind_eq_bind, Option.bind_eq_some_iff, Option.guard_eq_some',
    Bool.and_eq_true, Bool.not_eq_true'] at h
  obtain ⟨key, hkey, -, ⟨-, hline⟩, value, hvalue, h⟩ := h
  obtain rfl := Option.some.inj h
  obtain ⟨hplain, hvalueLine⟩ := Scale.translation?_spec hvalue
  have hname : NameText key := by
    rcases exists_eq_withoutFinalNewline_append key.toList with ⟨ending, heq, rfl | rfl⟩
    · intro c hc
      rw [heq, List.append_nil] at hc
      exact hplain c hc
    · have hmem : '\n' ∈ key.toList := by rw [heq]; simp
      simp [hmem] at hline
  refine ⟨Formula.plain_of_argument? hb hname hkey, contained_declare_singleton hp ?_⟩
  split
  · exact .append (.ofList rfl) hvalueLine
  · exact hvalueLine

theorem rotate?_spec {negative : Bool} {name declarations : String}
    (h : rotate? negative name = some declarations) : Plain name.toList ∧ Contained declarations := by
  simp only [rotate?, Option.bind_eq_bind, Option.bind_eq_some_iff] at h
  obtain ⟨argument, hargument, degrees, hdegrees, h⟩ := h
  obtain rfl := Option.some.inj h
  have hname := Formula.nameText_of_digits? hdegrees
  refine ⟨Formula.plain_of_argument? (.ofList rfl) hname hargument,
    contained_declare_singleton (.ofList rfl) ?_⟩
  have hdegreesLine : Contained (toString degrees ++ "deg") :=
    .append (contained_of_nameText (nameText_toString degrees)) (.ofList rfl)
  split
  · exact .append (.append (.ofList rfl) (contained_of_nameText (nameText_toString degrees))) (.ofList rfl)
  · exact hdegreesLine

theorem scale?_spec {negative : Bool} {name declarations : String}
    (h : scale? negative name = some declarations) : Plain name.toList ∧ Contained declarations := by
  simp only [scale?, Option.bind_eq_bind, Option.bind_eq_some_iff] at h
  obtain ⟨-, -, argument, hargument, percent, hpercent, h⟩ := h
  obtain rfl := Option.some.inj h
  have hname := Formula.nameText_of_digits? hpercent
  have hproperties : ∀ property ∈ ["--tw-scale-x", "--tw-scale-y"], Contained property :=
    List.forall_mem_cons.2 ⟨.ofList rfl, List.forall_mem_cons.2 ⟨.ofList rfl, List.forall_mem_nil _⟩⟩
  exact ⟨Formula.plain_of_argument? (.ofList rfl) hname hargument,
    contained_declare hproperties (contained_of_nameText (Decimal.nameText_render _))⟩

theorem property?_spec {negative : Bool} {name declarations : String}
    (h : property? negative name = some declarations) :
    Plain name.toList ∧ Contained declarations := by
  simp only [property?, Option.orElse_eq_orElse, Option.orElse_eq_or, Option.or_eq_some_iff] at h
  rcases h with h | ⟨-, h | ⟨-, h | ⟨-, h⟩⟩⟩
  · exact translate?_spec (.ofList rfl) (.ofList rfl) h
  · exact translate?_spec (.ofList rfl) (.ofList rfl) h
  · exact rotate?_spec h
  · exact scale?_spec h

end Transform

namespace Gradient

theorem nameText_of_stop {head : String} {stop : Stop} (h : Stop.ofName? head = some stop) :
    NameText head := by
  rw [Stop.ofName?.eq_def] at h
  split at h
  · exact .ofList rfl
  · exact .ofList rfl
  · exact .ofList rfl
  · cases h

theorem lasting_stop {p : String → Prop} (hp : Lasting p) {color : String} (hc : p color)
    (stop : Stop) : p (stop.declarations color) := by
  have hend : Contained openEnd := .ofList rfl
  have hfrom : Contained "var(--tw-gradient-from), " := .ofList rfl
  cases stop with
  | start =>
    have hstops : Contained (declare ["--tw-gradient-stops"] ("var(--tw-gradient-from), " ++ openEnd)) :=
      contained_declare_singleton (.ofList rfl) (hfrom.append hend)
    exact hp.append (hp.append (hp.declare_singleton (.ofList rfl) hc) (hp.contained (.ofList rfl)))
      (hp.contained hstops)
  | middle =>
    have hcolor := hp.append (hp.append (hp.contained hfrom) hc)
      (hp.contained (.ofList rfl : Contained ", "))
    exact hp.declare_singleton (.ofList rfl) (hp.append hcolor (hp.contained hend))
  | finish => exact hp.declare_singleton (.ofList rfl) hc

end Gradient

end UtilityCss
