import UtilityCss.Proofs.Attempts
import UtilityCss.Proofs.CheckedFamilies
import UtilityCss.Proofs.Shapes

/-!
# Compilations that do not break

The whole compilation of a text out of the steps that could break: its segments, its resolution, the keyframes that
it runs, its escaped names and the templates of its companions. For every text and naming no step breaks, and the
rules are those of `Naming.rules`.
-/

namespace UtilityCss.Checked
open Text

/-! ### Selectors -/

/-- Whether a character stands where an identifier starts. For a digit in the second place the first character is
looked at. -/
def startsAt (name : String) (c : Char) (index : Nat) : Except Fault Bool :=
  if index = 0 then pure true
  else if c.isDigit && index = 1 then (· == '-') <$> firstCharacter name
  else pure false

def escapedChar (name : String) (c : Char) (index : Nat) : Except Fault (List Char) := do
  let starts ← startsAt name c index
  pure (if c = '-' ∧ name.length = 1 then ['\\', '-']
    else if starts then Selector.escapeStart c
    else Selector.escapeChar c)

def escaped (name : String) : Except Fault String := do
  let parts ← name.toList.zipIdx.mapM fun place => escapedChar name place.1 place.2
  pure (String.ofList parts.flatten)

def ancestors (context : Selector.Context) (classPrefix : String) : Except Fault (List String) := do
  let states := String.join context.groupStates
  let groups ←
    if context.groupStates.isEmpty then pure [""]
    else if classPrefix.isEmpty then pure ["." ++ groupClass ++ states ++ " "]
    else do
      let marked ← escaped (classPrefix ++ "-" ++ groupClass)
      pure ["." ++ groupClass ++ states ++ " ", "." ++ marked ++ states ++ " "]
  pure (if context.dark then groups.map (".dark " ++ ·) else groups)

def selectors (naming : Naming) (token : Token) (suffix : String) :
    Except Fault (List String × Option String) := do
  let context := Selector.Context.ofNames token.variants
  let name ← escaped token.text
  let ancestors ← ancestors context naming.classPrefix
  let own := "." ++ name ++ String.join context.states ++ suffix ++ context.element
  pure (ancestors.map (· ++ own), context.media)

theorem escapeStart_of_not_isDigit {c : Char} (h : c.isDigit = false) :
    Selector.escapeStart c = Selector.escapeChar c := by
  rw [Selector.escapeStart, h]
  exact if_neg Bool.false_ne_true

theorem escapedChar_first {name : String} {c : Char} {cs : List Char} (hname : name.toList = c :: cs) :
    escapedChar name c 0 = .ok (if c = '-' ∧ cs = [] then ['\\', '-'] else Selector.escapeStart c) := by
  have hlength : name.length = 1 ↔ cs = [] := by
    rw [← String.length_toList, hname]
    simp
  simp only [escapedChar, hlength]
  rfl

theorem escapedChar_second {name : String} {first c : Char} {cs : List Char}
    (hname : name.toList = first :: c :: cs) : escapedChar name c 1 =
      .ok (if first = '-' then Selector.escapeStart c else Selector.escapeChar c) := by
  have hlength : name.length ≠ 1 := by
    rw [← String.length_toList, hname]
    simp
  have hfirst : firstCharacter name = .ok first := required_eq_ok.2 (by rw [hname]; rfl)
  cases hdigit : c.isDigit with
  | true =>
    simp [escapedChar, startsAt, hdigit, hfirst, hlength, bind, Except.bind, pure, Except.pure, Functor.map,
      Except.map]
  | false =>
    simp [escapedChar, startsAt, hdigit, hlength, escapeStart_of_not_isDigit, bind, Except.bind, pure,
      Except.pure]

theorem escapedChar_later {name : String} (hlength : name.length ≠ 1) (c : Char) {index : Nat}
    (h : 2 ≤ index) : escapedChar name c index = .ok (Selector.escapeChar c) := by
  have hzero : index ≠ 0 := by omega
  have hone : index ≠ 1 := by omega
  simp [escapedChar, startsAt, hzero, hone, hlength, bind, Except.bind, pure, Except.pure]

theorem escapeChars_cons_cons (first c : Char) (cs : List Char) :
    Selector.escapeChars (first :: c :: cs) = Selector.escapeStart first ++
      ((if first = '-' then Selector.escapeStart c else Selector.escapeChar c) ++
        cs.flatMap Selector.escapeChar) := by
  by_cases hfirst : first = '-'
  · subst hfirst
    rfl
  · simp [Selector.escapeChars, hfirst]

theorem escaped_eq (name : String) : escaped name = .ok (Selector.escape name) := by
  obtain ⟨parts, hparts, hflatten⟩ : ∃ parts,
      name.toList.zipIdx.mapM (fun place => escapedChar name place.1 place.2) = .ok parts ∧
        parts.flatten = Selector.escapeChars name.toList := by
    simp only [mapM_eq_ok]
    match hname : name.toList with
    | [] => exact ⟨[], .nil, rfl⟩
    | [c] =>
      refine ⟨_, .cons (escapedChar_first hname) .nil, ?_⟩
      by_cases hc : c = '-' <;> simp [hc, Selector.escapeChars]
    | first :: c :: cs =>
      have hlength : name.length ≠ 1 := by
        rw [← String.length_toList, hname]
        simp
      have hlater : List.Forall₂ (fun place part => escapedChar name place.1 place.2 = .ok part)
          (cs.zipIdx 2) ((cs.zipIdx 2).map fun place => Selector.escapeChar place.1) :=
        List.forall₂_map_right_iff.2 (List.forall₂_same.2 fun place hplace =>
          escapedChar_later hlength place.1 (List.le_snd_of_mem_zipIdx hplace))
      refine ⟨_, .cons (escapedChar_first hname) (.cons (escapedChar_second hname) hlater), ?_⟩
      rw [escapeChars_cons_cons, if_neg (by simp), List.flatten_cons, List.flatten_cons, List.flatMap_def,
        ← List.zipIdx_map_fst 2 cs, List.map_map, List.zipIdx_map_fst]
      rfl
  rw [escaped, hparts, Selector.escape, ← hflatten]
  rfl

theorem ancestors_eq (context : Selector.Context) (classPrefix : String) :
    ancestors context classPrefix = .ok (context.ancestors classPrefix) := by
  rw [ancestors, Selector.Context.ancestors]
  split <;> [skip; split]
  · rfl
  · rfl
  · rw [escaped_eq]
    rfl

theorem selectors_eq (naming : Naming) (token : Token) (suffix : String) :
    selectors naming token suffix =
      .ok (Selector.parts token.text token.variants suffix naming.classPrefix) := by
  rw [selectors, escaped_eq, ancestors_eq]
  rfl

/-! ### Rules -/

def keyframesRules (resolution : Resolution) : Except Fault (List Rule) :=
  resolution.keyframes.mapM fun name => do
    let stops ← keyframes name
    pure { selector := "@keyframes " ++ name, declarations := stops }

/-- The selector of a companion, with a field for that of the utility. -/
def surroundings (companion : Companion) : String :=
  Selector.listed (companion.around.map fun (before, after) => before ++ fieldMark "sel" ++ after)

def companionRule (companion : Companion) (parts : List String) (media : Option String) :
    Except Fault Rule := do
  let selectors ← parts.mapM (filled (surroundings companion) "sel")
  pure { selector := Selector.listed selectors, declarations := companion.declarations, media }

def tokenRules (naming : Naming) (token : Token) (resolution : Resolution) : Except Fault (List Rule) := do
  let animations ← keyframesRules resolution
  let (parts, media) ← selectors naming token resolution.suffix
  let own : Rule := { selector := Selector.listed parts, declarations := resolution.declarations, media }
  let (parts, media) ← selectors naming token ""
  let companions ← resolution.companions.mapM fun companion => companionRule companion parts media
  pure (animations ++ own :: companions)

theorem keyframesRules_eq {resolution : Resolution}
    (h : ∀ name ∈ resolution.keyframes, (Effect.animations.lookup name).isSome) :
    keyframesRules resolution = .ok resolution.keyframesRules := by
  refine mapM_eq_ok_filterMap fun name hname => ?_
  obtain ⟨stops, hstops⟩ := Option.isSome_iff_exists.1 (h name hname)
  refine ⟨{ selector := "@keyframes " ++ name, declarations := stops }, ?_, by rw [hstops]; rfl⟩
  rw [keyframes, required_eq_ok.2 hstops]
  rfl

theorem companionRule_eq {companion : Companion}
    (h : ∀ pair ∈ companion.around, Unbraced pair.1 ∧ Unbraced pair.2) (parts : List String)
    (media : Option String) : companionRule companion parts media = .ok (companion.rule parts media) := by
  have hfills : Fills "sel" (surroundings companion) fun part =>
      Selector.listed (companion.around.map fun (before, after) => before ++ part ++ after) :=
    .listed fun pair hpair => ((Fills.of_text (h pair hpair).1 _).append (.of_field "sel")).append
      (.of_text (h pair hpair).2 _)
  have hplain : Unbraced
      (Selector.listed (companion.around.map fun (before, after) => before ++ "" ++ after)) := by
    refine MadeOf.intercalate (.ofList rfl) (List.forall_mem_map.2 fun pair hpair => ?_)
    exact ((h pair hpair).1.append (.ofList rfl)).append (h pair hpair).2
  rw [companionRule, mapM_eq_ok_map fun part _ => hfills.filled_eq hplain part]
  rfl

theorem tokenRules_eq {naming : Naming} {token : Token} {resolution : Resolution}
    (h : token.Shaped resolution) :
    tokenRules naming token resolution = .ok (token.rules naming resolution) := by
  have htable : ∀ p ∈ Effect.named, (∀ name ∈ p.2.keyframes, (Effect.animations.lookup name).isSome) ∧
      ∀ companion ∈ p.2.companions, ∀ pair ∈ companion.around, Unbraced pair.1 ∧ Unbraced pair.2 := by
    decide
  obtain ⟨hkeyframes, hcompanions⟩ :
      (∀ name ∈ resolution.keyframes, (Effect.animations.lookup name).isSome) ∧
        ∀ companion ∈ resolution.companions, ∀ pair ∈ companion.around,
          Unbraced pair.1 ∧ Unbraced pair.2 := by
    rcases h.rules with ⟨hcompanions, hkeyframes⟩ | ⟨effect, hlookup, rfl⟩
    · rw [hcompanions, hkeyframes]
      exact ⟨List.forall_mem_nil _, List.forall_mem_nil _⟩
    · exact htable _ (mem_of_lookup_eq_some hlookup)
  have hrules (parts : List String) (media : Option String) :
      resolution.companions.mapM (fun companion => companionRule companion parts media) =
        .ok (resolution.companions.map fun companion => companion.rule parts media) :=
    mapM_eq_ok_map fun companion hcompanion => companionRule_eq (hcompanions companion hcompanion) _ _
  simp only [tokenRules, keyframesRules_eq hkeyframes, selectors_eq, hrules, bind, Except.bind]
  rfl

/-! ### A whole compilation -/

def parsed (naming : Naming) (text : String) : Attempt Token := do
  let parts := Token.segments text
  let base ← liftM (lastSegment parts)
  guard (!base.isEmpty && parts.dropLast.all Variant.isName)
  let (name, negative) ← found (Token.nameOf? naming base)
  guard (!name.isEmpty)
  let arbitrary := (Token.brackets? name.toList).map fun p => (String.ofList p.1, String.ofList p.2)
  let opacity := if arbitrary.isSome then none else (Token.opacityOf? name.toList).map String.ofList
  pure { text, variants := parts.dropLast, name, negative, arbitrary, opacity }

def rules (naming : Naming) (text : String) : Except Fault (List Rule) := do
  match ← (parsed naming text).run with
  | none => pure []
  | some token => match ← (resolve naming token).run with
    | none => pure []
    | some resolution => tokenRules naming token resolution

theorem yields_parsed (naming : Naming) (text : String) :
    Yields (parsed naming text) (Token.ofText? naming text) := by
  obtain ⟨base, hbase⟩ : ∃ base, (Token.segments text).getLast? = some base :=
    Option.isSome_iff_exists.1 (List.getLast?_isSome.2 (mt List.map_eq_nil_iff.1 (Token.segmentsAt_ne_nil 0 _)))
  rw [Token.ofText?]
  refine .step (required_eq_ok.2 hbase) ?_
  rw [hbase]
  refine (Yields.of_guard _).bind fun _ _ => ?_
  refine (Yields.of_option _).bind fun cut _ => ?_
  obtain ⟨name, negative⟩ := cut
  exact (Yields.of_guard _).bind fun _ _ => .of_pure _

theorem rules_eq (naming : Naming) (text : String) : rules naming text = .ok (naming.rules text) := by
  rw [rules, show (parsed naming text).run = _ from yields_parsed naming text, Naming.rules]
  cases htoken : Token.ofText? naming text with
  | none => rfl
  | some token =>
    obtain ⟨base, hparts⟩ := Token.exists_parts htoken
    have hresolve : (resolve naming token).run = .ok (token.resolve? naming) := yields_resolve hparts
    simp only [bind, Except.bind, hresolve]
    cases hresolution : token.resolve? naming with
    | none => rfl
    | some resolution => exact tokenRules_eq (Token.shaped_of_resolve? hparts hresolution)

/-- No step of a compilation breaks, whatever the text, the prefix and the leniency, although each of them has a
domain that it breaks outside of: so a number is read of one to five digits, the first character is taken of a text
that has one, channels are read of a hexadecimal color, and an opacity is cut off where it stands. -/
theorem rules_unbroken (naming : Naming) (text : String) : rules naming text = .ok (naming.rules text) ∧
    (∀ digits, (∃ n, number digits = .ok n) ↔ IsNumeral 5 digits) ∧
    (∀ name, (∃ c, firstCharacter name = .ok c) ↔ name ≠ "") ∧
    (∀ color, (∃ rgb, channels color = .ok rgb) ↔ isHexColor color) ∧
    ∀ color digits rest, withoutOpacity color digits = .ok rest ↔ color = rest ++ "/" ++ digits :=
  ⟨rules_eq naming text, fun _ => exists_number_iff, fun _ => exists_firstCharacter_iff, fun _ => exists_channels_iff,
    fun _ _ _ => withoutOpacity_eq_ok⟩

end UtilityCss.Checked
