import UtilityCss.Proofs.Blocks
import UtilityCss.Proofs.SelectorText
import UtilityCss.Utility.Resolve

/-!
# What the tables hold

Every table of the utilities, entry by entry: the names are made of the characters of utility names, the
texts are on one line and close what they open, and what follows a class in a selector is quiet. A table is
gone through along the way it is written, so that each literal is looked at once.
-/

namespace UtilityCss
open Text Block

theorem mem_of_lookup_eq_some {κ α : Type} [BEq κ] [LawfulBEq κ] {entries : List (κ × α)} {name : κ}
    {value : α} (h : entries.lookup name = some value) : (name, value) ∈ entries := by
  obtain ⟨before, after, rfl, -⟩ := List.lookup_eq_some_iff.1 h
  exact List.mem_append_cons_self

def IsTable {α : Type} (fits : α → Prop) (entries : List (String × α)) : Prop :=
  ∀ entry ∈ entries, NameText entry.1 ∧ fits entry.2

namespace IsTable

variable {α : Type} {fits : α → Prop} {entries others : List (String × α)}

theorem nil : IsTable fits [] := by simp [IsTable]

theorem cons {name : List Char} {value : α} (hn : name.all isNamePart = true) (hv : fits value)
    (h : IsTable fits entries) : IsTable fits ((String.ofList name, value) :: entries) := by
  intro entry hentry
  rcases List.mem_cons.1 hentry with rfl | hentry
  · exact ⟨.ofList hn, hv⟩
  · exact h entry hentry

theorem append (h : IsTable fits entries) (h' : IsTable fits others) :
    IsTable fits (entries ++ others) := by
  intro entry hentry
  exact (List.mem_append.1 hentry).elim (h entry) (h' entry)

theorem lookup (h : IsTable fits entries) {name : String} {value : α}
    (hl : entries.lookup name = some value) : NameText name ∧ fits value :=
  h _ (mem_of_lookup_eq_some hl)

theorem text {entries : List (String × String)} {name value : List Char}
    (hn : name.all isNamePart = true) (hv : leads? false [] value = some [])
    (h : IsTable Contained entries) :
    IsTable Contained ((String.ofList name, String.ofList value) :: entries) :=
  cons hn (.ofList hv) h

theorem family {property beginning : List Char} {values : List (String × String)}
    (hp : leads? false [] property = some []) (hb : beginning.all isNamePart = true)
    (h : IsTable Contained values) :
    IsTable Contained (Keyword.family (String.ofList property) (String.ofList beginning) values) := by
  intro entry hentry
  obtain ⟨⟨name, value⟩, hvalue, rfl⟩ := List.mem_map.1 hentry
  exact ⟨MadeOf.append (.ofList hb) (h _ hvalue).1,
    contained_declare_singleton (.ofList hp) (h _ hvalue).2⟩

end IsTable

namespace Keyword

theorem isTable_borders : IsTable Contained borders := by
  have hwidths : IsTable Contained borderWidths := by
    unfold borderWidths
    repeat' first
      | exact .nil
      | refine .text rfl rfl ?_
  have hsides : IsTable Contained borderSides := by
    unfold borderSides
    repeat' first
      | exact .nil
      | refine .text rfl rfl ?_
  have hradii : IsTable Contained radii := by
    unfold radii
    repeat' first
      | exact .nil
      | refine .text rfl rfl ?_
  have hcorners : IsTable (fun properties => ∀ q ∈ properties, Contained q) corners := by
    unfold corners
    repeat' first
      | exact .nil
      | exact List.forall_mem_nil _
      | refine .cons rfl ?_ ?_
      | refine List.forall_mem_cons.2 ⟨.ofList rfl, ?_⟩
  refine .append (.append ?_ (.family rfl rfl ?_)) ?_
  · intro entry hentry
    obtain ⟨⟨ending, width⟩, hwidth, hentry⟩ := List.mem_flatMap.1 hentry
    obtain ⟨⟨side, property⟩, hside, rfl⟩ := List.mem_map.1 hentry
    have hname : NameText ("border" ++ side) := .append (.ofList rfl) (hsides _ hside).1
    exact ⟨hname.append (hwidths _ hwidth).1,
      contained_declare_singleton (hsides _ hside).2 (hwidths _ hwidth).2⟩
  · repeat' first
      | exact .nil
      | refine .text rfl rfl ?_
  · intro entry hentry
    obtain ⟨⟨ending, radius⟩, hradius, hentry⟩ := List.mem_flatMap.1 hentry
    obtain ⟨⟨corner, properties⟩, hcorner, rfl⟩ := List.mem_map.1 hentry
    have hname : NameText ("rounded" ++ corner) := .append (.ofList rfl) (hcorners _ hcorner).1
    exact ⟨hname.append (hradii _ hradius).1,
      contained_declare (hcorners _ hcorner).2 (hradii _ hradius).2⟩

theorem isTable_opacities : IsTable Contained ((List.range 21).map fun step =>
    (s!"opacity-{5 * step}", declare ["opacity"] (Decimal.hundredths (5 * step)).render)) := by
  intro entry hentry
  obtain ⟨step, -, rfl⟩ := List.mem_map.1 hentry
  have hname : NameText ("opacity-" ++ toString (5 * step)) :=
    .append (.ofList rfl) (nameText_toString _)
  exact ⟨hname, contained_declare_singleton (.ofList rfl) (contained_of_nameText (Decimal.nameText_render _))⟩

theorem isTable_rings : IsTable Contained (ringWidths.map fun (ending, width) => ("ring" ++ ending,
    declare ["box-shadow"] ("var(--tw-ring-inset) 0 0 0 calc(" ++ width ++
      " + var(--tw-ring-offset-width)) var(--tw-ring-color)"))) := by
  have hwidths : IsTable Contained ringWidths := by
    unfold ringWidths
    repeat' first
      | exact .nil
      | refine .text rfl rfl ?_
  intro entry hentry
  obtain ⟨⟨ending, width⟩, hwidth, rfl⟩ := List.mem_map.1 hentry
  have hname : NameText ("ring" ++ ending) := .append (.ofList rfl) (hwidths _ hwidth).1
  have hvalue : Contained ("var(--tw-ring-inset) 0 0 0 calc(" ++ width ++
      " + var(--tw-ring-offset-width)) var(--tw-ring-color)") :=
    .append (.append (.ofList rfl) (.within (hwidths _ hwidth).2 _)) (.ofList rfl)
  exact ⟨hname, contained_declare_singleton (.ofList rfl) hvalue⟩

theorem isTable_effects : IsTable Contained effects := by
  refine .append (.append (.append (.append (.append (.append isTable_opacities ?_)
    isTable_rings) ?_) ?_) ?_) ?_
  all_goals
    repeat' first
      | exact .nil
      | refine .family rfl rfl ?_
      | refine .text rfl rfl ?_

theorem isTable_declarations : IsTable Contained declarations := by
  refine .append (.append (.append (.append (.append (.append ?_ ?_) ?_) isTable_borders)
    isTable_effects) ?_) (.text rfl rfl .nil)
  all_goals
    repeat' first
      | exact .nil
      | refine .family rfl rfl ?_
      | refine .append ?_ ?_
      | refine .text rfl rfl ?_
      | refine .cons rfl (.append (.ofList rfl) (.ofList rfl)) ?_

end Keyword

namespace Scale

theorem isTable_sizingKeywords : IsTable Contained sizingKeywords := by
  repeat' first
    | exact .nil
    | refine .text rfl rfl ?_

theorem isTable_heightKeywords : IsTable Contained heightKeywords := by
  repeat' first
    | exact .nil
    | refine .text rfl rfl ?_

theorem isTable_insetKeywords : IsTable Contained insetKeywords := by
  repeat' first
    | exact .nil
    | refine .text rfl rfl ?_

theorem nameText_of_mem_spacingKeys : ∀ key ∈ spacingKeys, NameText key := by
  repeat' first
    | exact List.forall_mem_nil _
    | refine List.forall_mem_cons.2 ⟨.ofList rfl, ?_⟩

end Scale

theorem tail_betweenChildren : Selector.Tail betweenChildren := .ofCons rfl rfl

theorem ScaleFamily.isTable_named : IsTable (fun family =>
    (∀ property ∈ family.properties, Contained property) ∧ Selector.Tail family.suffix) named := by
  unfold named
  repeat' first
    | exact .nil
    | exact .empty
    | exact tail_betweenChildren
    | exact List.forall_mem_nil _
    | refine .cons rfl ⟨?_, ?_⟩ ?_
    | refine List.forall_mem_cons.2 ⟨.ofList rfl, ?_⟩

theorem ColorFamily.isTable_named : IsTable (fun family =>
    Contained family.property ∧ Selector.Tail family.suffix) named := by
  unfold named
  repeat' first
    | exact .nil
    | refine .cons rfl ⟨.ofList rfl, .empty⟩ ?_
    | refine .cons rfl ⟨.ofList rfl, tail_betweenChildren⟩ ?_

namespace Palette

theorem isTable_families : IsTable (fun colors => ∀ color ∈ colors, Contained color) families := by
  unfold families
  repeat' first
    | exact .nil
    | exact List.forall_mem_nil _
    | refine .cons rfl ?_ ?_
    | refine List.forall_mem_cons.2 ⟨.ofList rfl, ?_⟩

theorem isTable_special : IsTable Contained special := by
  repeat' first
    | exact .nil
    | refine .text rfl rfl ?_

theorem nameText_of_mem_semantic : ∀ color ∈ semantic, NameText color := by
  repeat' first
    | exact List.forall_mem_nil _
    | refine List.forall_mem_cons.2 ⟨.ofList rfl, ?_⟩

end Palette

namespace Composite

theorem isTable_fontSizes :
    IsTable (fun size => Contained size.1 ∧ Contained size.2) fontSizes := by
  unfold fontSizes
  repeat' first
    | exact .nil
    | refine .cons rfl ⟨.ofList rfl, .ofList rfl⟩ ?_

theorem isTable_transitions : IsTable Contained transitions := by
  unfold transitions
  repeat' first
    | exact .nil
    | refine .text rfl rfl ?_
    | refine .cons rfl (.append (.ofList rfl) (.ofList rfl)) ?_

theorem isTable_named : IsTable (fun composite =>
    Contained composite.declarations ∧ Selector.Tail composite.suffix) named := by
  refine .append (.append ?_ ?_) ?_
  · intro entry hentry
    obtain ⟨⟨name, size, lineHeight⟩, hsize, rfl⟩ := List.mem_map.1 hentry
    obtain ⟨hname, hfont, hline⟩ := isTable_fontSizes _ hsize
    have hdeclarations : Contained (declare ["font-size"] size ++ " " ++
        declare ["line-height"] lineHeight) :=
      .append (.append (contained_declare_singleton (.ofList rfl) hfont) (.ofList rfl))
        (contained_declare_singleton (.ofList rfl) hline)
    exact ⟨.append (.ofList rfl) hname, hdeclarations, .empty⟩
  · refine .cons rfl ⟨.ofList rfl, .empty⟩ ?_
    refine .cons rfl ⟨.append (.ofList rfl) (.ofList rfl), .empty⟩ ?_
    refine .cons rfl ⟨.append (.ofList rfl) (.ofList rfl), .empty⟩ ?_
    refine .cons rfl ⟨.ofList rfl, .empty⟩ ?_
    refine .cons rfl ⟨.ofList rfl, tail_betweenChildren⟩ ?_
    exact .cons rfl ⟨.ofList rfl, tail_betweenChildren⟩ .nil
  · intro entry hentry
    obtain ⟨⟨name, properties⟩, hproperties, rfl⟩ := List.mem_map.1 hentry
    obtain ⟨hname, htext⟩ := isTable_transitions _ hproperties
    exact ⟨hname, (contained_declare_singleton (.ofList rfl) htext).append (.ofList rfl), .empty⟩

end Composite

/-- A companion of utilities: one line of declarations, and surroundings that leave a selector one. -/
structure Companion.Fits (companion : Companion) : Prop where
  declarations : Contained companion.declarations
  around_ne : companion.around ≠ []
  around : ∀ p ∈ companion.around, Selector.Lead p.1 ∧ Selector.Tail p.2

namespace Effect

theorem contained_gridLines {rgb : String} (h : Contained rgb) : Contained (gridLines rgb) := by
  refine Passes.intercalate (.ofList rfl) ?_
  intro line hline
  obtain ⟨side, hside, rfl⟩ := List.mem_map.1 hline
  have hsides : ∀ side ∈ ["right", "bottom"], Contained side :=
    List.forall_mem_cons.2 ⟨.ofList rfl, List.forall_mem_cons.2 ⟨.ofList rfl, List.forall_mem_nil _⟩⟩
  have hto : Passes [] ("linear-gradient(to " ++ side ++ ", rgb(") [.round, .round] :=
    .append (.append (.ofList rfl) (.within (hsides side hside) _)) (.ofList rfl)
  exact (hto.append (.within h _)).append (.ofList rfl)

theorem fits_inside {endings : List String} {declarations : String} (hne : endings ≠ [])
    (h : ∀ ending ∈ endings, Selector.Tail ending) (hd : Contained declarations) :
    (inside endings declarations).Fits where
  declarations := hd
  around_ne := by simpa [inside] using hne
  around := by
    intro p hp
    obtain ⟨ending, hending, rfl⟩ := List.mem_map.1 hp
    exact ⟨Selector.lead_empty, h ending hending⟩

theorem fits_inside_ending {c : Char} {cs : List Char} {declarations : String}
    (h : (c :: cs).all Selector.isQuiet = true) (hc : Identifier.isPart c = false)
    (hd : Contained declarations) : (inside [String.ofList (c :: cs)] declarations).Fits :=
  fits_inside (List.cons_ne_nil _ _) (by simpa using Selector.Tail.ofCons h hc) hd

theorem fits_prose : ∀ companion ∈ prose, companion.Fits := by
  unfold prose
  have hlists : ∀ ending ∈ [" ul", " ol"], Selector.Tail ending :=
    List.forall_mem_cons.2 ⟨.ofCons rfl rfl,
      List.forall_mem_cons.2 ⟨.ofCons rfl rfl, List.forall_mem_nil _⟩⟩
  refine List.forall_mem_cons.2 ⟨fits_inside_ending rfl rfl (.ofList rfl), ?_⟩
  refine List.forall_mem_cons.2 ⟨fits_inside_ending rfl rfl (.ofList rfl), ?_⟩
  refine List.forall_mem_cons.2 ⟨fits_inside_ending rfl rfl (.ofList rfl), ?_⟩
  refine List.forall_mem_cons.2 ⟨fits_inside_ending rfl rfl (.append (.ofList rfl) (.ofList rfl)), ?_⟩
  refine List.forall_mem_cons.2 ⟨fits_inside_ending rfl rfl (.append (.ofList rfl) (.ofList rfl)), ?_⟩
  refine List.forall_mem_cons.2 ⟨fits_inside (List.cons_ne_nil _ _) hlists (.ofList rfl), ?_⟩
  refine List.forall_mem_cons.2 ⟨fits_inside_ending rfl rfl (.ofList rfl), ?_⟩
  refine List.forall_mem_cons.2 ⟨fits_inside_ending rfl rfl (.ofList rfl), ?_⟩
  refine List.forall_mem_cons.2 ⟨fits_inside_ending rfl rfl (.append (.ofList rfl) (.ofList rfl)), ?_⟩
  refine List.forall_mem_cons.2 ⟨fits_inside_ending rfl rfl (.append (.ofList rfl) (.ofList rfl)), ?_⟩
  refine List.forall_mem_cons.2 ⟨fits_inside_ending rfl rfl (.ofList rfl), ?_⟩
  refine List.forall_mem_cons.2 ⟨fits_inside_ending rfl rfl (.append (.ofList rfl) (.ofList rfl)), ?_⟩
  refine List.forall_mem_cons.2 ⟨fits_inside_ending rfl rfl (.append (.ofList rfl) (.ofList rfl)), ?_⟩
  exact List.forall_mem_nil _

theorem fits_invertedProse : ∀ companion ∈ invertedProse, companion.Fits := by
  unfold invertedProse
  repeat' first
    | exact List.forall_mem_nil _
    | refine List.forall_mem_cons.2 ⟨fits_inside_ending rfl rfl (.ofList rfl), ?_⟩

structure Fits (effect : Effect) : Prop where
  declarations : Contained effect.declarations
  suffix : Selector.Tail effect.suffix
  companions : ∀ companion ∈ effect.companions, companion.Fits

theorem isTable_cons {name : List Char} {declarations suffix : String}
    {companions : List Companion} {keyframes : List String} {effects : List (String × Effect)}
    (hname : name.all isNamePart = true) (hd : Contained declarations) (hs : Selector.Tail suffix)
    (hc : ∀ companion ∈ companions, companion.Fits) (h : IsTable Fits effects) :
    IsTable Fits ((String.ofList name, ⟨declarations, suffix, companions, keyframes⟩) :: effects) :=
  .cons hname ⟨hd, hs, hc⟩ h

theorem fits_darkGrid : Companion.Fits {
    around := [(".dark ", "")]
    declarations := declare ["background-image"] (gridLines "63 63 70 / 0.35") } where
  declarations := contained_declare_singleton (.ofList rfl) (contained_gridLines (.ofList rfl))
  around_ne := List.cons_ne_nil _ _
  around := by
    have hlead := Selector.lead_dark Selector.lead_empty
    rw [String.append_empty] at hlead
    exact List.forall_mem_cons.2 ⟨⟨hlead, .empty⟩, List.forall_mem_nil _⟩

theorem isTable_named : IsTable Fits named := by
  have hnone : ∀ companion ∈ ([] : List Companion), companion.Fits := List.forall_mem_nil _
  have hspring : Contained spring := .ofList rfl
  have hlight : Contained (declare ["background-image"] (gridLines "228 228 231 / 0.6")) :=
    contained_declare_singleton (.ofList rfl) (contained_gridLines (.ofList rfl))
  refine isTable_cons rfl (.append (.ofList rfl) (.ofList rfl)) (.ofCons rfl rfl) hnone ?_
  refine isTable_cons rfl (.ofList rfl) .empty hnone ?_
  refine isTable_cons rfl (.ofList rfl) .empty hnone ?_
  refine isTable_cons rfl (.append (.append (.ofList rfl) hspring) (.ofList rfl)) .empty hnone ?_
  refine isTable_cons rfl (.ofList rfl) (.ofCons rfl rfl) hnone ?_
  refine isTable_cons rfl (.ofList rfl) .empty hnone ?_
  refine isTable_cons rfl (.ofList rfl) .empty hnone ?_
  refine isTable_cons rfl (.ofList rfl) .empty hnone ?_
  refine isTable_cons rfl (.append (.append (.ofList rfl) hspring) (.ofList rfl)) .empty hnone ?_
  refine isTable_cons rfl (hlight.append (.ofList rfl)) .empty
    (List.forall_mem_cons.2 ⟨fits_darkGrid, hnone⟩) ?_
  refine isTable_cons rfl (.ofList rfl) .empty hnone ?_
  refine isTable_cons rfl (.append (.ofList rfl) (.ofList rfl)) .empty hnone ?_
  refine isTable_cons rfl (.append (.ofList rfl) (.ofList rfl)) .empty hnone ?_
  refine isTable_cons rfl (.append (.append (.ofList rfl) (.ofList rfl)) (.ofList rfl)) .empty
    hnone ?_
  refine isTable_cons rfl (.ofList rfl) .empty fits_prose ?_
  exact isTable_cons rfl (.ofList rfl) .empty fits_invertedProse .nil

def Stepped (steps : List (String × String)) : Prop :=
  ∀ step ∈ steps, Contained step.1 ∧ Contained step.2

theorem stepped_nil : Stepped [] := List.forall_mem_nil _

theorem stepped_cons {position declarations : List Char} {steps : List (String × String)}
    (hp : leads? false [] position = some []) (hd : leads? false [] declarations = some [])
    (h : Stepped steps) : Stepped ((String.ofList position, String.ofList declarations) :: steps) :=
  List.forall_mem_cons.2 ⟨⟨.ofList hp, .ofList hd⟩, h⟩

theorem contained_stops {steps : List (String × String)} (h : Stepped steps) :
    Contained (stops steps) := by
  refine Passes.intercalate (.ofList rfl) ?_
  intro s hs
  obtain ⟨⟨position, declarations⟩, hstep, rfl⟩ := List.mem_map.1 hs
  obtain ⟨hposition, hdeclarations⟩ := h _ hstep
  exact .append (.append (.append hposition (.ofList rfl)) (.within hdeclarations _)) (.ofList rfl)

def Animated (entries : List (String × String)) : Prop :=
  ∀ entry ∈ entries, MadeOf Selector.isQuiet entry.1 ∧ Contained entry.2

theorem animated_cons {name : List Char} {steps entries : List (String × String)}
    (hname : name.all Selector.isQuiet = true) (hs : Stepped steps) (h : Animated entries) :
    Animated ((String.ofList name, stops steps) :: entries) :=
  List.forall_mem_cons.2 ⟨⟨.ofList hname, contained_stops hs⟩, h⟩

theorem animated_animations : Animated animations := by
  unfold animations
  repeat' first
    | exact stepped_nil
    | refine stepped_cons rfl rfl ?_
    | refine animated_cons rfl ?_ ?_
    | exact List.forall_mem_nil _

end Effect

theorem Formula.isTable_spanWords : IsTable Contained spanWords := by
  repeat' first
    | exact .nil
    | refine .text rfl rfl ?_

theorem Formula.isTable_orderWords : IsTable Contained orderWords := by
  repeat' first
    | exact .nil
    | refine .text rfl rfl ?_

theorem Formula.nameText_of_mem_templateWords : ∀ word ∈ templateWords, NameText word := by
  repeat' first
    | exact List.forall_mem_nil _
    | refine List.forall_mem_cons.2 ⟨.ofList rfl, ?_⟩

theorem Gradient.isTable_directions : IsTable Contained directions := by
  unfold directions
  repeat' first
    | exact .nil
    | refine .text rfl rfl ?_

namespace Bracketed

theorem isTable_properties : IsTable (fun properties =>
    properties ≠ [] ∧ ∀ property ∈ properties, NameText property) properties := by
  unfold properties
  repeat' first
    | exact .nil
    | exact List.cons_ne_nil _ _
    | exact List.forall_mem_nil _
    | refine .cons rfl ⟨?_, ?_⟩ ?_
    | refine List.forall_mem_cons.2 ⟨.ofList rfl, ?_⟩

theorem isTable_colorProperties : IsTable (fun properties =>
    properties ≠ [] ∧ ∀ property ∈ properties, NameText property) colorProperties := by
  unfold colorProperties
  repeat' first
    | exact .nil
    | exact List.cons_ne_nil _ _
    | exact List.forall_mem_nil _
    | refine .cons rfl ⟨?_, ?_⟩ ?_
    | refine List.forall_mem_cons.2 ⟨.ofList rfl, ?_⟩

end Bracketed

end UtilityCss
