import Mathlib.Data.List.Induction
import UtilityCss.Proofs.PseudoElements

/-!
# Variants compose independently

The variants of a token are read one after the other, but what they make of a selector is said kind by kind: the
states in the order of their first mention, whether the dark theme and the pseudo-element are asked for at all,
and the first breakpoint. How variants of different kinds are interleaved, and how often they are repeated, makes
no difference.
-/

namespace UtilityCss

namespace Variant

def pseudoClass? : Variant → Option String
  | state pseudoClass => some pseudoClass
  | _ => none

def groupPseudoClass? : Variant → Option String
  | group pseudoClass => some pseudoClass
  | _ => none

def minWidth? : Variant → Option Nat
  | breakpoint minWidth => some minWidth
  | _ => none

/-- What the tables of states, of group states and of breakpoints say of a name is what its variant says. -/
structure Classified (name : String) : Prop where
  states : states.lookup name = (ofName? name).bind pseudoClass?
  groupStates : groupStates.lookup name = (ofName? name).bind groupPseudoClass?
  breakpoints : breakpoints.lookup name = (ofName? name).bind minWidth?

theorem classified (name : String) : Classified name := by
  have hknown : ∀ name ∈ named.map Prod.fst,
      states.lookup name = (ofName? name).bind pseudoClass? ∧
        groupStates.lookup name = (ofName? name).bind groupPseudoClass? ∧
        breakpoints.lookup name = (ofName? name).bind minWidth? := by decide
  have htables : (∀ p ∈ states, p.1 ∈ named.map Prod.fst) ∧ (∀ p ∈ groupStates, p.1 ∈ named.map Prod.fst) ∧
      ∀ p ∈ breakpoints, p.1 ∈ named.map Prod.fst := by decide
  by_cases hname : name ∈ named.map Prod.fst
  · obtain ⟨hstates, hgroups, hbreakpoints⟩ := hknown name hname
    exact ⟨hstates, hgroups, hbreakpoints⟩
  · have hnone {β : Type} {table : List (String × β)} (h : ∀ p ∈ table, p.1 ∈ named.map Prod.fst) :
        table.lookup name = none := by
      refine List.lookup_eq_none_iff.2 fun p hp => bne_iff_ne.2 ?_
      rintro rfl
      exact hname (h p hp)
    have hvariant : ofName? name = none := hnone fun p hp => List.mem_map_of_mem hp
    exact ⟨by rw [hnone htables.1, hvariant]; rfl, by rw [hnone htables.2.1, hvariant]; rfl,
      by rw [hnone htables.2.2, hvariant]; rfl⟩

end Variant

namespace Selector

open Variant

namespace Context

theorem addNew_eraseDups (state : String) (states : List String) :
    addNew state states.eraseDups = (states ++ [state]).eraseDups := by
  rw [addNew, List.eraseDups_append, List.removeAll]
  by_cases hmem : state ∈ states
  · simp [hmem]
  · simp [hmem, List.eraseDups_cons]

theorem ofVariants_concat (variants : List Variant) (variant : Variant) :
    ofVariants (variants ++ [variant]) = (ofVariants variants).add variant := by
  rw [ofVariants, List.foldl_append]
  rfl

theorem eq_eraseDups_of_add {field : Context → List String} {text? : Variant → Option String}
    (hstart : field {} = [])
    (hsome : ∀ context variant text, text? variant = some text →
      field (context.add variant) = addNew text (field context))
    (hnone : ∀ context variant, text? variant = none → field (context.add variant) = field context)
    (variants : List Variant) : field (ofVariants variants) = (variants.filterMap text?).eraseDups := by
  induction variants using List.reverseRecOn with
  | nil => exact hstart
  | append_singleton variants variant ih =>
    rw [ofVariants_concat, List.filterMap_append]
    cases htext : text? variant with
    | none => rw [hnone _ _ htext, ih, List.filterMap_cons_none htext, List.filterMap_nil, List.append_nil]
    | some text =>
      rw [hsome _ _ _ htext, ih, addNew_eraseDups, List.filterMap_cons_some htext, List.filterMap_nil]

theorem states_ofVariants (variants : List Variant) :
    (ofVariants variants).states = (variants.filterMap pseudoClass?).eraseDups := by
  refine eq_eraseDups_of_add rfl (fun context variant text h => ?_) (fun context variant h => ?_) variants
  · cases variant with
    | state pseudoClass =>
      obtain rfl := Option.some.inj h
      rfl
    | _ => cases h
  · cases variant with
    | state pseudoClass => cases h
    | _ => rfl

theorem groupStates_ofVariants (variants : List Variant) :
    (ofVariants variants).groupStates = (variants.filterMap groupPseudoClass?).eraseDups := by
  refine eq_eraseDups_of_add rfl (fun context variant text h => ?_) (fun context variant h => ?_) variants
  · cases variant with
    | group pseudoClass =>
      obtain rfl := Option.some.inj h
      rfl
    | _ => cases h
  · cases variant with
    | group pseudoClass => cases h
    | _ => rfl

def query (minWidth : Nat) : String := s!"(min-width: {minWidth}px)"

theorem media_ofVariants (variants : List Variant) :
    (ofVariants variants).media = (variants.findSome? minWidth?).map query := by
  induction variants using List.reverseRecOn with
  | nil => rfl
  | append_singleton variants variant ih =>
    have hfirst : ((ofVariants variants).add variant).media =
        ((ofVariants variants).media).or ((minWidth? variant).map query) := by
      cases variant with
      | breakpoint minWidth => exact Option.orElse_eq_or
      | state _ | group _ | element _ | dark => exact Option.or_none.symm
    rw [ofVariants_concat, hfirst, ih, List.findSome?_append, Option.map_or, List.findSome?_singleton]

end Context

/-! ### What a list of variants asks for -/

def statesOf (names : List String) : List String :=
  (names.filterMap fun name => states.lookup name).eraseDups

def groupStatesOf (names : List String) : List String :=
  (names.filterMap fun name => groupStates.lookup name).eraseDups

def firstBreakpoint? (names : List String) : Option Nat := names.findSome? fun name => breakpoints.lookup name

def groupAncestors (names : List String) (classPrefix marker : String) : List String :=
  let states := String.join (groupStatesOf names)
  if groupStatesOf names = [] then [""]
  else if classPrefix = "" then [".group" ++ states ++ " "]
  else [".group" ++ states ++ " ", "." ++ marker ++ states ++ " "]

/-- The selectors of a class and their media query, kind by kind. -/
def composed (text suffix classPrefix marker : String) (names : List String) : List String × Option String :=
  ((groupAncestors names classPrefix marker).map fun group =>
      (if "dark" ∈ names then ".dark " else "") ++ group ++
        ("." ++ escape text ++ String.join (statesOf names) ++ suffix ++
          if "placeholder" ∈ names then "::placeholder" else ""),
    (firstBreakpoint? names).map Context.query)

/-- Two lists of variants ask for the same, in whatever order they are interleaved. -/
structure AsksSame (names others : List String) : Prop where
  states : statesOf names = statesOf others
  groupStates : groupStatesOf names = groupStatesOf others
  breakpoint : firstBreakpoint? names = firstBreakpoint? others
  dark : "dark" ∈ names ↔ "dark" ∈ others
  placeholder : "placeholder" ∈ names ↔ "placeholder" ∈ others

namespace Context

theorem states_ofNames (names : List String) : (ofNames names).states = statesOf names := by
  rw [ofNames, states_ofVariants, List.filterMap_filterMap, statesOf]
  simp only [(classified _).states]

theorem groupStates_ofNames (names : List String) : (ofNames names).groupStates = groupStatesOf names := by
  rw [ofNames, groupStates_ofVariants, List.filterMap_filterMap, groupStatesOf]
  simp only [(classified _).groupStates]

theorem media_ofNames (names : List String) : (ofNames names).media = (firstBreakpoint? names).map query := by
  rw [ofNames, media_ofVariants, firstBreakpoint?, ← List.head?_filterMap, ← List.head?_filterMap,
    List.filterMap_filterMap]
  simp only [(classified _).breakpoints]

theorem ancestors_ofNames (names : List String) (classPrefix : String) :
    (ofNames names).ancestors classPrefix =
      (groupAncestors names classPrefix (escape (classPrefix ++ "-group"))).map fun group =>
        (if "dark" ∈ names then ".dark " else "") ++ group := by
  have hgroups : groupAncestors names classPrefix (escape (classPrefix ++ "-group")) =
      if (groupStatesOf names).isEmpty then [""]
      else if classPrefix.isEmpty then ["." ++ groupClass ++ String.join (groupStatesOf names) ++ " "]
      else ["." ++ groupClass ++ String.join (groupStatesOf names) ++ " ",
        "." ++ escape (classPrefix ++ "-" ++ groupClass) ++ String.join (groupStatesOf names) ++ " "] := by
    have hmarker : classPrefix ++ "-" ++ groupClass = classPrefix ++ "-group" := String.append_assoc
    simp only [groupAncestors, List.isEmpty_iff, String.isEmpty_iff, hmarker]
    rfl
  rw [hgroups, ancestors, groupStates_ofNames]
  by_cases hdark : "dark" ∈ names
  · rw [if_pos ((dark_ofNames names).2 hdark), if_pos hdark]
  · rw [if_neg fun h => hdark ((dark_ofNames names).1 h), if_neg hdark]
    simp only [String.empty_append, List.map_id']

end Context

theorem parts_eq_composed (text suffix classPrefix : String) (names : List String) :
    parts text names suffix classPrefix =
      composed text suffix classPrefix (escape (classPrefix ++ "-group")) names := by
  simp only [parts, Context.parts, composed, Context.ancestors_ofNames, Context.states_ofNames,
    Context.element_ofNames, Context.media_ofNames, List.map_map]
  rfl

theorem AsksSame.composed_eq {names others : List String} (h : AsksSame names others)
    (text suffix classPrefix marker : String) :
    composed text suffix classPrefix marker names = composed text suffix classPrefix marker others := by
  simp only [composed, groupAncestors, h.states, h.groupStates, h.breakpoint, h.dark, h.placeholder]

theorem escapeChars_append {cs : List Char} (hne : cs ≠ []) (hdash : cs ≠ ['-']) (rest : List Char) :
    escapeChars (cs ++ rest) = escapeChars cs ++ rest.flatMap escapeChar := by
  obtain ⟨first, cs, rfl⟩ := List.exists_cons_of_ne_nil hne
  by_cases hfirst : first = '-'
  · subst hfirst
    cases cs with
    | nil => exact absurd rfl hdash
    | cons c cs => simp [escapeChars]
  · simp [escapeChars, hfirst]

theorem escape_append_group {classPrefix : String} (h : classPrefix ≠ "-") :
    escape (classPrefix ++ "-group") = escape classPrefix ++ "-group" := by
  have hgroup : "-group".toList.flatMap escapeChar = "-group".toList := by decide
  by_cases hempty : classPrefix = ""
  · subst hempty
    decide
  · have hne : classPrefix.toList ≠ [] := mt String.toList_eq_nil_iff.1 hempty
    have hdash : classPrefix.toList ≠ ['-'] := fun heq => h (String.toList_inj.1 heq)
    rw [escape, String.toList_append, escapeChars_append hne hdash, hgroup, String.ofList_append,
      String.ofList_toList, escape]

/-- The selectors of a class and their media query are put together kind by kind, so that two lists of variants
that ask for the same give the same. The prefixed class of a group is escaped as a whole, which escapes its
prefix unless that is a lone dash. -/
theorem parts_composed (text suffix classPrefix : String) (names : List String) :
    parts text names suffix classPrefix =
      composed text suffix classPrefix (escape (classPrefix ++ "-group")) names ∧
    (classPrefix ≠ "-" → escape (classPrefix ++ "-group") = escape classPrefix ++ "-group") ∧
    ∀ others, AsksSame names others →
      parts text others suffix classPrefix = parts text names suffix classPrefix := by
  refine ⟨parts_eq_composed text suffix classPrefix names, escape_append_group, fun others h => ?_⟩
  rw [parts_eq_composed, parts_eq_composed, h.composed_eq]

theorem parts_composed_interleaved :
    let names := ["dark", "hover", "md", "group-hover", "focus", "placeholder"]
    let others := ["group-hover", "md", "hover", "sm", "dark", "placeholder", "focus", "hover", "dark"]
    "vibe" ≠ "-" ∧ escape ("vibe" ++ "-group") = escape "vibe" ++ "-group" ∧ AsksSame names others ∧
      parts "x" others " > *" "vibe" = parts "x" names " > *" "vibe" ∧
      parts "x" names " > *" "vibe" = (
        [".dark .group:hover .x:hover:focus > *::placeholder",
          ".dark .vibe-group:hover .x:hover:focus > *::placeholder"], some "(min-width: 768px)") := by
  intro names others
  have hsame : AsksSame names others := by
    refine ⟨?_, ?_, ?_, ?_, ?_⟩ <;> decide
  obtain ⟨hparts, hescape, hothers⟩ := parts_composed "x" " > *" "vibe" names
  refine ⟨by decide, hescape (by decide), hsame, hothers others hsame, ?_⟩
  rw [hparts]
  decide

/-- The prefixed class of a group is not always its escaped prefix with the ending. -/
theorem not_all_parts_composed : ¬∀ (text suffix classPrefix : String) (names : List String),
    parts text names suffix classPrefix =
      composed text suffix classPrefix (escape classPrefix ++ "-group") names := by
  intro h
  have hparts := h "x" "" "-" ["group-hover"]
  revert hparts
  decide

end Selector

end UtilityCss
