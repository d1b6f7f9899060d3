import UtilityCss.Proofs.SelectorText

/-!
# The variants around a class

Whatever variants a token has, the text that they put around its class is quiet behind the class and made of
ancestors before it. One variant keeps this of a context, and so do all of them, one after the other.
-/

namespace UtilityCss.Selector
open Text

def Fits : Variant → Prop
  | .state pseudoClass => Tail pseudoClass
  | .group pseudoClass => Tail pseudoClass
  | .element pseudoElement => Tail pseudoElement
  | .breakpoint _ => True
  | .dark => True

theorem fits_of_ofName? {name : String} {variant : Variant}
    (h : Variant.ofName? name = some variant) : NameText name ∧ Fits variant := by
  have hstates : ∀ p ∈ Variant.states, NameText p.1 ∧ Tail p.2 := by
    repeat' first
      | exact List.forall_mem_nil _
      | refine List.forall_mem_cons.2 ⟨⟨.ofList rfl, .ofCons rfl rfl⟩, ?_⟩
  have hgroups : ∀ p ∈ Variant.groupStates, NameText p.1 ∧ Tail p.2 := by
    repeat' first
      | exact List.forall_mem_nil _
      | refine List.forall_mem_cons.2 ⟨⟨.ofList rfl, .ofCons rfl rfl⟩, ?_⟩
  have helements : ∀ p ∈ Variant.elements, NameText p.1 ∧ Tail p.2 := by
    exact List.forall_mem_cons.2 ⟨⟨.ofList rfl, .ofCons rfl rfl⟩, List.forall_mem_nil _⟩
  have hbreakpoints : ∀ p ∈ Variant.breakpoints, NameText p.1 := by
    repeat' first
      | exact List.forall_mem_nil _
      | refine List.forall_mem_cons.2 ⟨.ofList rfl, ?_⟩
  have hmem : (name, variant) ∈ Variant.named := by
    obtain ⟨before, after, heq, -⟩ := List.lookup_eq_some_iff.1 h
    rw [heq]
    simp
  simp only [Variant.named, List.mem_append, List.mem_map, Prod.exists, Prod.mk.injEq,
    List.mem_singleton] at hmem
  rcases hmem with (((⟨a, b, hp, rfl, rfl⟩ | ⟨a, b, hp, rfl, rfl⟩) | ⟨a, b, hp, rfl, rfl⟩) |
    ⟨a, b, hp, rfl, rfl⟩) | ⟨rfl, rfl⟩
  · exact hstates _ hp
  · exact hgroups _ hp
  · exact helements _ hp
  · exact ⟨hbreakpoints _ hp, trivial⟩
  · exact ⟨.ofList rfl, trivial⟩

namespace Context

structure Sound (context : Context) : Prop where
  states : ∀ state ∈ context.states, Tail state
  groupStates : ∀ state ∈ context.groupStates, Tail state
  element : Tail context.element
  media : ∀ query ∈ context.media, OneLine query ∧ query ≠ ""

theorem tail_of_mem_addNew {state : String} {states : List String} (hnew : Tail state)
    (h : ∀ s ∈ states, Tail s) : ∀ s ∈ addNew state states, Tail s := by
  intro s hs
  rw [addNew] at hs
  split at hs
  · exact h s hs
  · rcases List.mem_append.1 hs with hs | hs
    · exact h s hs
    · obtain rfl := List.mem_singleton.1 hs
      exact hnew

theorem Sound.add {context : Context} (h : context.Sound) {variant : Variant}
    (hv : Fits variant) : (context.add variant).Sound := by
  cases variant with
  | state pseudoClass => exact { h with states := tail_of_mem_addNew hv h.states }
  | group pseudoClass => exact { h with groupStates := tail_of_mem_addNew hv h.groupStates }
  | element pseudoElement => exact { h with element := hv }
  | dark => exact { h with }
  | breakpoint minWidth =>
    refine { h with media := ?_ }
    intro query hquery
    simp only [Context.add, Option.orElse_eq_orElse, Option.orElse_eq_or, Option.mem_def,
      Option.or_eq_some_iff] at hquery
    rcases hquery with hquery | ⟨-, hquery⟩
    · exact h.media query hquery
    · obtain rfl := Option.some.inj hquery
      have hwidth : OneLine ("(min-width: " ++ toString minWidth ++ "px)") :=
        .append (.append (.ofList rfl) (oneLine_toString minWidth)) (.ofList rfl)
      exact ⟨hwidth, by simp⟩

theorem Sound.foldl {variants : List Variant} (hv : ∀ variant ∈ variants, Fits variant) :
    ∀ {context : Context}, context.Sound → (variants.foldl Context.add context).Sound := by
  induction variants with
  | nil => exact fun h => h
  | cons variant variants ih =>
    intro context h
    exact ih (fun v hmem => hv v (List.mem_cons_of_mem variant hmem))
      (h.add (hv variant List.mem_cons_self))

theorem sound_ofNames (names : List String) : (ofNames names).Sound := by
  have hempty : ({} : Context).Sound := {
    states := List.forall_mem_nil _
    groupStates := List.forall_mem_nil _
    element := .empty
    media := by simp }
  refine Sound.foldl (fun variant hmem => ?_) hempty
  obtain ⟨name, -, hname⟩ := List.mem_filterMap.1 hmem
  exact (fits_of_ofName? hname).2

theorem Sound.lead_group {context : Context} (h : context.Sound) {name : String}
    (hname : name ≠ "") : Lead ("." ++ escape name ++ String.join context.groupStates ++ " ") := by
  rw [String.append_assoc]
  exact (selects_class hname ((Tail.join h.groupStates).append (.ofCons rfl rfl))).lead

theorem ne_empty_of_mem_groups {classPrefix name : String}
    (h : name ∈ [groupClass, classPrefix ++ "-" ++ groupClass]) : name ≠ "" := by
  rcases List.mem_pair.1 h with rfl | rfl
  · decide
  · simp

theorem ancestors_ne_nil (context : Context) (classPrefix : String) :
    context.ancestors classPrefix ≠ [] := by
  rw [ancestors]
  intro h
  split at h
  · rw [List.map_eq_nil_iff] at h
    split_ifs at h
  · split_ifs at h

theorem mem_ancestors {context : Context} {classPrefix ancestor : String}
    (h : ancestor ∈ context.ancestors classPrefix) :
    ∃ group, (group = "" ∨ ∃ name ∈ [groupClass, classPrefix ++ "-" ++ groupClass],
        group = "." ++ escape name ++ String.join context.groupStates ++ " ") ∧
      ancestor = if context.dark then ".dark " ++ group else group := by
  have hescape : escape groupClass = groupClass := by decide
  obtain ⟨groups, heq, hgroups⟩ : ∃ groups : List String,
      context.ancestors classPrefix = (if context.dark then groups.map (".dark " ++ ·) else groups) ∧
        ∀ group ∈ groups, group = "" ∨ ∃ name ∈ [groupClass, classPrefix ++ "-" ++ groupClass],
          group = "." ++ escape name ++ String.join context.groupStates ++ " " := by
    refine ⟨_, rfl, ?_⟩
    split
    · simp
    · split
      · simp [hescape]
      · simp [hescape]
  rw [heq] at h
  split at h
  · obtain ⟨group, hgroup, rfl⟩ := List.mem_map.1 h
    exact ⟨group, hgroups group hgroup, by simp [*]⟩
  · exact ⟨ancestor, hgroups ancestor h, by simp [*]⟩

theorem Sound.ancestors {context : Context} (h : context.Sound) {classPrefix ancestor : String}
    (hancestor : ancestor ∈ context.ancestors classPrefix) : Lead ancestor := by
  obtain ⟨group, hgroup, rfl⟩ := mem_ancestors hancestor
  have hlead : Lead group := by
    rcases hgroup with rfl | ⟨name, hname, rfl⟩
    · exact lead_empty
    · exact h.lead_group (ne_empty_of_mem_groups hname)
  split
  · exact lead_dark hlead
  · exact hlead

theorem Sound.parts {context : Context} (h : context.Sound) {name suffix : String}
    (hname : name ≠ "") (hsuffix : Tail suffix) (classPrefix : String) :
    context.parts name suffix classPrefix ≠ [] ∧
      ∀ part ∈ context.parts name suffix classPrefix, Selects name.toList part := by
  have htail : Tail (String.join context.states ++ suffix ++ context.element) :=
    ((Tail.join h.states).append hsuffix).append h.element
  have hown := selects_class hname htail
  refine ⟨by simpa [Context.parts] using context.ancestors_ne_nil classPrefix, ?_⟩
  intro part hpart
  obtain ⟨ancestor, hancestor, rfl⟩ := List.mem_map.1 hpart
  have hselects := hown.prepend (h.ancestors hancestor)
  simpa only [String.append_assoc] using hselects

end Context

end UtilityCss.Selector
