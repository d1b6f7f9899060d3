import UtilityCss.Config.Check
import UtilityCss.Config.Settings
import UtilityCss.Proofs.Lineage

/-!
# Settings of a configuration without complaints

A configuration that there is nothing to complain about, with the defaults filled in, has a value of the right
kind for every option of a pass. This rests on its keys being distinct, as they are in every configuration that
was loaded: a complaint is about the first value of a key, the defaults are replaced by the last one.
-/

namespace UtilityCss

namespace Config
open Entries

/-! ### Distinct keys -/

theorem eq_of_assembled {config parents entries : Entries} (h : assembled config parents = .ok entries) :
    mergeOnto parents (Entries.remove "extends" config) = entries := by
  rw [assembled] at h
  split at h
  · exact Except.ok.inj h
  · cases h

theorem nodup_of_merged {load : String → Loaded} {names : List String} {before entries : Entries}
    (hbefore : (identities before).Nodup)
    (hload : ∀ name ∈ names, ∀ part, (load name).result = .ok part → (identities part).Nodup)
    (h : (merged load before names).result = .ok entries) : (identities entries).Nodup := by
  induction names generalizing before with
  | nil =>
    rw [merged] at h
    exact Except.ok.inj h ▸ hbefore
  | cons name names ih =>
    rw [List.forall_mem_cons] at hload
    obtain ⟨part, hpart, hrest⟩ := exists_of_result_andThen h
    exact ih (nodup_mergeOnto hbefore (hload.1 part hpart)) hload.2 hrest

theorem nodup_of_loadFile {reader : Yaml.Reader} (hkeyed : reader.Keyed) {space : Workspace} {seen : List Location}
    {path : Path} {config : Entries} (h : (loadFile reader space seen path).result = .ok config) :
    (identities config).Nodup := by
  -- Every call that is made has one file more open, so that fewer are left.
  induction hmeasure : remaining space seen using Nat.strongRecOn generalizing seen path config with
  | ind n ih =>
    subst hmeasure
    rw [loadFile_eq_step] at h
    by_cases hnew : space.resolve path ∈ seen
    · rw [step_of_mem hnew] at h
      exact Except.ok.inj h ▸ List.nodup_nil
    · rw [step_of_notMem hnew, opened] at h
      split at h
      · cases h
      · rename_i own hread
        split at h
        · cases h
        · rename_i names hnames
          obtain ⟨parents, hparents, hown⟩ := exists_of_result_andThen h
          obtain rfl := eq_of_assembled hown
          have hnil : (identities []).Nodup := List.nodup_nil
          have hkeys := (wellKeyed_of_readFile hkeyed hread).keys
          refine nodup_mergeOnto (nodup_of_merged hnil (fun name _ part hpart => ?_) hparents)
            (nodup_remove "extends" hkeys)
          rw [followed] at hpart
          split at hpart
          · split at hpart
            · rename_i hpreset
              exact Except.ok.inj hpart ▸ (wellKeyed_of_preset? hpreset).keys
            · exact Except.ok.inj hpart ▸ List.nodup_nil
          · split at hpart
            · cases hpart
            · exact Except.ok.inj hpart ▸ List.nodup_nil
            · exact ih _ (remaining_lt_of_readFile hread hnew) hpart rfl

theorem nodup_keys_of_loadAt {reader : Yaml.Reader} (hkeyed : reader.Keyed) {space : Workspace} {path : Path}
    {config : Entries} (h : (loadAt reader space path).result = .ok config) :
    (config.map Prod.fst).Nodup := by
  rw [loadAt] at h
  split at h
  · cases h
  · cases h
  · split at h
    · cases h
    · have hkeys := nodup_of_loadFile hkeyed h
      rw [identities_eq] at hkeys
      exact hkeys.of_map

/-! ### Filling in the defaults -/

theorem lookup_onTop {base entries : Entries} (h : (entries.map Prod.fst).Nodup) (key : Scalar) :
    (onTop base entries).lookup key = (entries.lookup key).or (base.lookup key) := by
  induction entries generalizing base with
  | nil => rfl
  | cons entry rest ih =>
    rw [List.map_cons, List.nodup_cons] at h
    rw [onTop, List.foldl_cons, ← onTop, ih h.2, lookup_set, List.lookup_cons]
    by_cases hkey : key = entry.1
    · subst hkey
      have hnone : rest.lookup entry.1 = none := by
        rw [List.lookup_eq_none_iff]
        intro other hother
        rw [bne_iff_ne]
        exact fun heq => h.1 (heq ▸ List.mem_map_of_mem hother)
      simp [hnone]
    · rw [if_neg hkey, beq_eq_false_iff_ne.mpr hkey]

theorem filled_of_ne {key : String} (h : key ≠ "watch") (value : Value) :
    filled (.text key, value) = value := by
  rw [filled]
  exact fun _ hkey _ => h (Scalar.text.inj hkey)

theorem lookup_map_filled (config : Entries) (key : Scalar) :
    (config.map fun entry => (entry.1, filled entry)).lookup key =
      (config.lookup key).map fun value => filled (key, value) := by
  induction config with
  | nil => rfl
  | cons entry rest ih =>
    rw [List.map_cons, List.lookup_cons, List.lookup_cons]
    by_cases hkey : key = entry.1
    · subst hkey
      simp
    · rw [beq_eq_false_iff_ne.mpr hkey]
      exact ih

theorem get?_withDefaults {config : Entries} (h : (config.map Prod.fst).Nodup) (key : String) :
    (withDefaults config).get? key =
      ((config.get? key).map fun value => filled (.text key, value)).or (defaults.get? key) := by
  have hkeys : ((config.map fun entry => (entry.1, filled entry)).map Prod.fst).Nodup := by
    rwa [List.map_map]
  rw [Entries.get?, withDefaults, lookup_onTop hkeys, lookup_map_filled]
  rfl

theorem exists_withDefaults {config : Entries} (h : (config.map Prod.fst).Nodup) (key : String)
    (hkey : defaults.has key = true) : ∃ value, (withDefaults config).get? key = some value := by
  obtain ⟨default, hdefault⟩ := Option.isSome_iff_exists.1 hkey
  rw [get?_withDefaults h, hdefault]
  cases config.get? key with
  | none => exact ⟨_, rfl⟩
  | some value => exact ⟨_, rfl⟩

/-! ### No complaints -/

theorem mapM_map_eq_some {α β γ : Type} {f : α → β} {g : β → Option γ} {k : α → γ}
    (h : ∀ x, g (f x) = some (k x)) (xs : List α) : (xs.map f).mapM g = some (xs.map k) := by
  induction xs with
  | nil => rfl
  | cons x xs ih =>
    rw [List.map_cons, List.mapM_cons, h, ih]
    rfl

theorem complainIf_eq_nil {wrong : Bool} {complaint : String} :
    complainIf wrong complaint = [] ↔ wrong = false := by
  cases wrong <;> simp [complainIf]

theorem texts?_eq_some {value : Value} {texts : List String} (h : value.texts? = some texts) :
    value = .texts texts := by
  cases value with
  | list items =>
    refine congrArg Value.list ?_
    rw [Value.texts?] at h
    induction items generalizing texts with
    | nil =>
      obtain rfl := Option.some.inj h
      rfl
    | cons item items ih =>
      rw [List.mapM_cons] at h
      obtain ⟨text, htext, h⟩ := Option.bind_eq_some_iff.1 h
      obtain ⟨rest, hrest, h⟩ := Option.bind_eq_some_iff.1 h
      obtain rfl := Option.some.inj h
      rw [ih hrest, List.map_cons]
      congr 1
      unfold Value.text? at htext
      split at htext
      · rw [Option.some.inj htext]
      · cases htext
  | _ => cases h

theorem isPath_iff {value : Value} : isPath value = true ↔ value = .null ∨ ∃ s, value = .text s := by
  unfold isPath Value.text?
  constructor
  · intro h
    split at h
    · exact .inl rfl
    · split at h
      · exact .inr ⟨_, rfl⟩
      · cases h
  · rintro (rfl | ⟨s, rfl⟩) <;> rfl

/-- What the values of a configuration are when there is nothing to complain about. -/
structure Valid (config : Entries) : Prop where
  classPrefix : ∃ s, (config.get? "prefix").getD (.text Naming.defaultPrefix) = .text s
  path : ∀ key ∈ ["output", "base_css"], ∀ value, config.get? key = some value → isPath value = true
  texts : ∀ key ∈ ["scan_patterns", "exclude_dirs", "ignore_classes"], ∀ value,
    config.get? key = some value → ∃ texts, value = .texts texts

theorem valueComplaints_of_complaints {config : Entries} {all : List String}
    (h : complaints config = .ok all) : valueComplaints config <+: all := by
  rw [complaints] at h
  split at h
  · cases h
  · split at h
    · exact Except.ok.inj h ▸ List.prefix_append _ _
    · cases h

theorem valid_of_complaints {config : Entries} (h : complaints config = .ok []) : Valid config := by
  have hvalues := List.prefix_nil.1 (valueComplaints_of_complaints h)
  simp only [valueComplaints, List.append_eq_nil_iff, List.flatMap_eq_nil_iff] at hvalues
  obtain ⟨⟨⟨⟨⟨⟨-, hprefix⟩, -⟩, hpaths⟩, hlists⟩, -⟩, -⟩ := hvalues
  refine ⟨?_, fun key hkey value hvalue => ?_, fun key hkey value hvalue => ?_⟩
  · rw [prefixComplaints] at hprefix
    split at hprefix
    · rename_i s hs
      exact ⟨s, hs⟩
    · cases hprefix
  · have hpath := hpaths key hkey
    rw [pathComplaints, complainIf_eq_nil, hvalue, Option.any_some, Bool.not_eq_false'] at hpath
    exact hpath
  · have htexts := hlists key hkey
    rw [listComplaints, complainIf_eq_nil, hvalue, Option.any_some, Option.isNone_eq_false_iff,
      Option.isSome_iff_exists] at htexts
    obtain ⟨texts, htexts⟩ := htexts
    exact ⟨texts, texts?_eq_some htexts⟩

namespace Valid

variable {config : Entries}

theorem get?_path (h : Valid config) (hkeys : (config.map Prod.fst).Nodup) (key : String)
    (hkey : key ∈ ["output", "base_css"]) :
    ∃ value, (withDefaults config).get? key = some value ∧ isPath value = true := by
  have hdefault : ∃ value, defaults.get? key = some value ∧ isPath value = true := by
    simp only [List.mem_cons, List.not_mem_nil, or_false] at hkey
    rcases hkey with rfl | rfl <;> exact ⟨_, rfl, rfl⟩
  have hwatch : key ≠ "watch" := by
    rintro rfl
    revert hkey
    decide
  rw [get?_withDefaults hkeys]
  cases hvalue : config.get? key with
  | none => exact hdefault
  | some value => exact ⟨value, congrArg some (filled_of_ne hwatch value), h.path key hkey value hvalue⟩

theorem get?_texts (h : Valid config) (hkeys : (config.map Prod.fst).Nodup) (key : String)
    (hkey : key ∈ ["scan_patterns", "exclude_dirs", "ignore_classes"]) :
    ∃ texts, (withDefaults config).get? key = some (.texts texts) := by
  have hdefault : ∃ texts, defaults.get? key = some (.texts texts) := by
    simp only [List.mem_cons, List.not_mem_nil, or_false] at hkey
    rcases hkey with rfl | rfl | rfl
    · exact ⟨Options.defaultPatterns, rfl⟩
    · exact ⟨Options.defaultExclusions, rfl⟩
    · exact ⟨[], rfl⟩
  have hwatch : key ≠ "watch" := by
    rintro rfl
    revert hkey
    decide
  rw [get?_withDefaults hkeys]
  cases hvalue : config.get? key with
  | none => exact hdefault
  | some value =>
    obtain ⟨texts, rfl⟩ := h.texts key hkey value hvalue
    exact ⟨texts, congrArg some (filled_of_ne hwatch _)⟩

theorem get?_prefix (h : Valid config) (hkeys : (config.map Prod.fst).Nodup) :
    ∃ s, (withDefaults config).get? "prefix" = some (.text s) := by
  obtain ⟨s, hs⟩ := h.classPrefix
  rw [get?_withDefaults hkeys]
  cases hvalue : config.get? "prefix" with
  | none => exact ⟨_, rfl⟩
  | some value =>
    rw [hvalue, Option.getD_some] at hs
    exact ⟨s, congrArg some ((filled_of_ne (by decide) value).trans hs)⟩

theorem output_cases (h : Valid config) (hkeys : (config.map Prod.fst).Nodup) :
    config.get? "output" = some .null ∧ (withDefaults config).get? "output" = some .null ∨
      config.get? "output" ≠ some .null ∧ ∃ name, (withDefaults config).get? "output" = some (.text name) ∧
        (config.get? "output" = some (.text name) ∨ name = Options.defaultOutput) := by
  rw [get?_withDefaults hkeys]
  cases hvalue : config.get? "output" with
  | none => exact .inr ⟨nofun, _, rfl, .inr rfl⟩
  | some value =>
    rw [Option.map_some, Option.some_or, filled_of_ne (by decide)]
    rcases isPath_iff.1 (h.path "output" (by decide) value hvalue) with rfl | ⟨name, rfl⟩
    · exact .inl ⟨rfl, rfl⟩
    · exact .inr ⟨nofun, name, rfl, .inl rfl⟩

theorem exists_options (h : Valid config) (hkeys : (config.map Prod.fst).Nodup) :
    ∃ options, (Settings.ofConfig? config).bind Settings.options? = some options ∧
      ∀ name, options.baseCss = some name → config.get? "base_css" = some (.text name) := by
  obtain ⟨patterns, hpatterns⟩ := h.get?_texts hkeys "scan_patterns" (by decide)
  obtain ⟨exclusions, hexclusions⟩ := h.get?_texts hkeys "exclude_dirs" (by decide)
  obtain ⟨ignored, hignored⟩ := h.get?_texts hkeys "ignore_classes" (by decide)
  obtain ⟨classPrefix, hprefix⟩ := h.get?_prefix hkeys
  obtain ⟨base, hbase, hpath⟩ := h.get?_path hkeys "base_css" (by decide)
  obtain ⟨permissive, hpermissive⟩ := exists_withDefaults hkeys "allow_unprefixed" (by decide)
  obtain ⟨includeBase, hinclude⟩ := exists_withDefaults hkeys "include_base" (by decide)
  have hitems (texts : List String) :
      Settings.items? (.texts texts) = some (texts.map Value.text) := rfl
  have hvalues (texts : List String) : (texts.map Value.text).mapM Value.text? = some texts := by
    have hone (s : String) : Value.text? (.text s) = some (id s) := rfl
    rw [mapM_map_eq_some hone, List.map_id]
  have hscalars (texts : List String) :
      (texts.map Value.text).mapM Settings.scalar? = some (texts.map Scalar.text) := by
    have hone (s : String) : Settings.scalar? (.text s) = some (Scalar.text s) := rfl
    exact mapM_map_eq_some hone texts
  have hnames (texts : List String) : (texts.map Scalar.text).mapM Scalar.text? = some texts := by
    have hone (s : String) : Scalar.text? (.text s) = some (id s) := rfl
    rw [mapM_map_eq_some hone, List.map_id]
  have hsettings : Settings.ofConfig? config = some {
      classPrefix := .text classPrefix
      permissive := permissive.holds
      scanPatterns := patterns.map Value.text
      includeBase := includeBase.holds
      baseCss := base
      ignoreClasses := ignored.map Scalar.text
      excludeDirs := exclusions.map Value.text } := by
    simp only [Settings.ofConfig?, Settings.ofFilled?, hpatterns, hexclusions, hignored, hprefix, hbase,
      hpermissive, hinclude, hitems, hscalars, Option.bind_eq_bind, Option.bind_some]
    rfl
  obtain ⟨baseCss, hmaybe, hnamed⟩ : ∃ baseCss, Settings.maybeText? base = some baseCss ∧
      ∀ name, baseCss = some name → config.get? "base_css" = some (.text name) := by
    rcases isPath_iff.1 hpath with rfl | ⟨name, rfl⟩
    · exact ⟨none, rfl, nofun⟩
    · refine ⟨some name, rfl, fun other hother => ?_⟩
      obtain rfl := Option.some.inj hother
      rw [get?_withDefaults hkeys] at hbase
      cases hvalue : config.get? "base_css" with
      | none =>
        rw [hvalue] at hbase
        cases hbase
      | some value =>
        rwa [hvalue, Option.map_some, Option.some_or, filled_of_ne (by decide)] at hbase
  have hprefixText : Value.text? (.text classPrefix) = some classPrefix := rfl
  rw [hsettings, Option.bind_some, Settings.options?]
  simp only [hvalues, hnames, hmaybe, hprefixText, Option.bind_eq_bind, Option.bind_some]
  exact ⟨_, rfl, hnamed⟩

end Valid

end Config

end UtilityCss
