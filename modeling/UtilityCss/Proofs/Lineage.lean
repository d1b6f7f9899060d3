import UtilityCss.Proofs.DistinctKeys
import UtilityCss.Proofs.Nesting

/-!
# What a configuration is merged from

A configuration is the merge, in one row, of the files and presets that it builds on and of itself: those that
its references lead to, in order and each behind what it builds on, and then its own entries. What is loaded
for each reference is a merge of its own, so that this rests on merging being associative.
-/

namespace UtilityCss.Text.Utf8

theorem readPieces_toUTF8 (text : String) : readPieces text.toUTF8 = .whole text := by
  have hvalid : String.fromUTF8? text.toUTF8 = some text := dif_pos text.isValidUTF8
  rw [readPieces, decode, hvalid]

end UtilityCss.Text.Utf8

namespace UtilityCss.Config
open Entries

theorem readFile_of_text {reader : Yaml.Reader} {space : Workspace} {path : Path} {text : String} {value : Value}
    (hbytes : space.read path = .ok text.toUTF8)
    (hvalue : reader true (Text.unifyNewlines text) = .ok value) :
    readFile reader space path = ofValue path value := by
  rw [readFile, hbytes]
  simp only [ofBytes, Text.Utf8.readPieces_toUTF8, hvalue]

def namesOf (config : Entries) : List String := (references config).toOption.getD []

/-- The configurations that a file is merged from, when the files at `seen` are open. A file that is open, one
that there is not, and a preset that there is not give none. -/
def lineage (reader : Yaml.Reader) (space : Workspace) (seen : List Location) (path : Path) : List Entries :=
  if hs : space.resolve path ∈ seen then []
  else match hr : readFile reader space path with
    | .error _ => []
    | .ok config =>
      have := remaining_lt_of_readFile hr hs
      ((namesOf config).flatMap fun name =>
        if isPresetName name then (preset? name).toList
        else if space.has (target path.parent name) then
          lineage reader space (space.resolve path :: seen) (target path.parent name)
        else []) ++ [Entries.remove "extends" config]
termination_by remaining space seen

def contributed (reader : Yaml.Reader) (space : Workspace) (seen : List Location) (folder : Path) (name : String) :
    List Entries :=
  if isPresetName name then (preset? name).toList
  else if space.has (target folder name) then lineage reader space seen (target folder name) else []

section Equations

variable {reader : Yaml.Reader} {space : Workspace} {seen : List Location} {path : Path} {config : Entries}

theorem lineage_of_mem (h : space.resolve path ∈ seen) : lineage reader space seen path = [] := by
  rw [lineage, dif_pos h]

theorem lineage_of_error (hnew : space.resolve path ∉ seen) {fault : Fault}
    (h : readFile reader space path = .error fault) : lineage reader space seen path = [] := by
  rw [lineage, dif_neg hnew]
  split
  · rfl
  · rename_i hread
    rw [h] at hread
    cases hread

theorem lineage_of_readFile (hnew : space.resolve path ∉ seen) (h : readFile reader space path = .ok config) :
    lineage reader space seen path =
      (namesOf config).flatMap (contributed reader space (space.resolve path :: seen) path.parent) ++
        [Entries.remove "extends" config] := by
  rw [lineage, dif_neg hnew]
  split
  · rename_i hread
    rw [h] at hread
    cases hread
  · rename_i hread
    rw [h] at hread
    obtain rfl := Except.ok.inj hread
    rfl

end Equations

theorem forall_mem_lineage {reader : Yaml.Reader} {space : Workspace} {p : Entries → Prop}
    (hpreset : ∀ name entries, preset? name = some entries → p entries)
    (hfile : ∀ path config, readFile reader space path = .ok config → p (Entries.remove "extends" config))
    (seen : List Location) (path : Path) : ∀ file ∈ lineage reader space seen path, p file := by
  induction hmeasure : remaining space seen using Nat.strongRecOn generalizing seen path with
  | ind n ih =>
    subst hmeasure
    by_cases hnew : space.resolve path ∈ seen
    · rw [lineage_of_mem hnew]
      exact List.forall_mem_nil _
    · cases hread : readFile reader space path with
      | error fault =>
        rw [lineage_of_error hnew hread]
        exact List.forall_mem_nil _
      | ok config =>
        rw [lineage_of_readFile hnew hread]
        intro file hmem
        rcases List.mem_append.1 hmem with hmem | hmem
        · obtain ⟨name, -, hmem⟩ := List.mem_flatMap.1 hmem
          rw [contributed] at hmem
          split at hmem
          · exact hpreset name file (Option.mem_toList.1 hmem)
          · split at hmem
            · exact ih _ (remaining_lt_of_readFile hread hnew) _ _ rfl file hmem
            · cases hmem
        · rw [List.mem_singleton.1 hmem]
          exact hfile path config hread

theorem mem_presets_of_preset? {name : String} {entries : Entries} (h : preset? name = some entries) :
    ∃ key, (key, entries) ∈ presets := by
  obtain ⟨key, -, hlookup⟩ := Option.bind_eq_some_iff.1 h
  obtain ⟨before, after, heq, -⟩ := List.lookup_eq_some_iff.1 hlookup
  exact ⟨key, by rw [heq]; simp⟩

theorem wellKeyed_of_preset? {name : String} {entries : Entries} (h : preset? name = some entries) :
    (Value.mapping entries).WellKeyed := by
  obtain ⟨key, hmem⟩ := mem_presets_of_preset? h
  have hall : ∀ preset ∈ presets, (identities preset.2).Nodup ∧
      ∀ entry ∈ preset.2, entry.2.entries?.isNone := by decide
  exact Value.wellKeyed_of_flat (hall _ hmem).1 (hall _ hmem).2

theorem wellKeyed_of_mem_lineage {reader : Yaml.Reader} (hkeyed : reader.Keyed) (space : Workspace)
    (seen : List Location) (path : Path) :
    ∀ file ∈ lineage reader space seen path, (Value.mapping file).WellKeyed :=
  forall_mem_lineage (fun _ _ => wellKeyed_of_preset?)
    (fun _ _ hread => (wellKeyed_of_readFile hkeyed hread).remove "extends") seen path

theorem extends_of_mem_lineage (reader : Yaml.Reader) (space : Workspace) (seen : List Location) (path : Path) :
    ∀ file ∈ lineage reader space seen path, valueOf? file (.text "extends") = none := by
  refine forall_mem_lineage (fun name entries h => ?_) (fun path config _ => ?_) seen path
  · obtain ⟨key, hmem⟩ := mem_presets_of_preset? h
    have hall : ∀ preset ∈ presets, valueOf? preset.2 (.text "extends") = none := by decide
    exact hall _ hmem
  · rw [valueOf?_remove, if_pos rfl]

/-! ### What is loaded where something is loaded -/

theorem result_andThen {loaded : Loaded} {entries : Entries} (h : loaded.result = .ok entries)
    (next : Entries → Loaded) : (loaded.andThen next).result = (next entries).result := by
  rw [Loaded.andThen, h]
  rfl

theorem exists_of_result_andThen {loaded : Loaded} {next : Entries → Loaded} {entries : Entries}
    (h : (loaded.andThen next).result = .ok entries) :
    ∃ before, loaded.result = .ok before ∧ (next before).result = .ok entries := by
  cases hresult : loaded.result with
  | ok before => exact ⟨before, rfl, (result_andThen hresult next).symm.trans h⟩
  | error fault =>
    rw [Loaded.andThen, hresult] at h
    simp only at h
    rw [hresult] at h
    cases h

theorem exists_of_result_merged {load : String → Loaded} {names : List String} {before entries : Entries}
    (h : (merged load before names).result = .ok entries) :
    ∀ name ∈ names, ∃ part, (load name).result = .ok part := by
  induction names generalizing before with
  | nil => exact List.forall_mem_nil _
  | cons name names ih =>
    obtain ⟨part, hpart, hrest⟩ := exists_of_result_andThen h
    exact List.forall_mem_cons.2 ⟨⟨part, hpart⟩, ih hrest⟩

namespace Call

def Loads (reader : Yaml.Reader) (space : Workspace) : Call → Prop
  | .file seen path => ∃ config, (loadFile reader space seen path).result = .ok config
  | .preset .. => True

/-- The references that a call follows can be looked up, whether or not there is anything. -/
def Looks (reader : Yaml.Reader) (space : Workspace) : Call → Prop
  | .file seen path => ∀ reference, Follows reader space seen path reference → isPresetName reference = false →
      ∃ found, space.look (target path.parent reference) = .ok found
  | .preset .. => True

variable {reader : Yaml.Reader} {space : Workspace} {seen : List Location} {path : Path} {call made : Call}

theorem Loads.followed (h : Loads reader space (.file seen path)) {reference : String}
    (hfollows : Follows reader space seen path reference) :
    ∃ part, (followed space (loadFile reader space) (space.resolve path :: seen) path.parent reference).result =
      .ok part := by
  obtain ⟨config, h⟩ := h
  obtain ⟨hnew, own, names, hread, hnames, hmem⟩ := hfollows
  rw [loadFile_eq_step, step_of_notMem hnew, opened, hread] at h
  simp only [hnames] at h
  obtain ⟨parents, hparents, -⟩ := exists_of_result_andThen h
  exact exists_of_result_merged hparents reference hmem

theorem Loads.looks (h : Loads reader space call) : Looks reader space call := by
  cases call with
  | preset => trivial
  | file seen path =>
    intro reference hfollows hname
    obtain ⟨part, hpart⟩ := h.followed hfollows
    rw [Config.followed, if_neg (by simp [hname])] at hpart
    cases hlook : space.look (target path.parent reference) with
    | ok found => exact ⟨found, rfl⟩
    | error error =>
      rw [hlook] at hpart
      cases hpart

theorem Loads.of_makes (h : Loads reader space call) (hmakes : Makes reader space call made) :
    Loads reader space made := by
  cases hmakes with
  | preset => trivial
  | file hfollows hname hlook =>
    obtain ⟨part, hpart⟩ := h.followed hfollows
    rw [Config.followed, if_neg (by simp [hname]), hlook] at hpart
    exact ⟨part, hpart⟩

theorem Within.loads {outermost : Call} {around : List Call} (h : Within reader space outermost around call)
    (houtermost : Loads reader space outermost) : Loads reader space call := by
  induction h with
  | outermost => exact houtermost
  | made _ hmakes ih => exact ih.of_makes hmakes

end Call

/-! ### Loading is merging in a row -/

theorem result_merged {load : String → Loaded} {part : String → List Entries} {names : List String}
    (hload : ∀ name ∈ names, (load name).result = .ok (mergeAll (part name))) (before : List Entries)
    (hwell : ∀ file ∈ before ++ names.flatMap part, (Value.mapping file).WellKeyed)
    (hconsistent : Consistent (before ++ names.flatMap part)) :
    (merged load (mergeAll before) names).result = .ok (mergeAll (before ++ names.flatMap part)) := by
  induction names generalizing before with
  | nil =>
    rw [merged, List.flatMap_nil, List.append_nil]
    rfl
  | cons name names ih =>
    rw [List.flatMap_cons, ← List.append_assoc] at hwell hconsistent ⊢
    have hgroup : mergeOnto (mergeAll before) (mergeAll (part name)) = mergeAll (before ++ part name) :=
      mergeAll_append (List.forall_mem_append.1 hwell).1 hconsistent.of_append_left
    rw [merged, result_andThen (hload name List.mem_cons_self), hgroup]
    exact ih (fun other hother => hload other (List.mem_cons_of_mem name hother)) _ hwell hconsistent

/-- A file that can be read as a configuration, whose references are texts. -/
structure Usable (reader : Yaml.Reader) (space : Workspace) (path : Path) (config : Entries) : Prop where
  read : readFile reader space path = .ok config
  named : config.get? "extends" = none ∨ (∃ name, config.get? "extends" = some (.text name)) ∨
    ∃ names, config.get? "extends" = some (.texts names)

theorem Usable.exists_values {reader : Yaml.Reader} {space : Workspace} {path : Path} {config : Entries}
    (h : Usable reader space path config) :
    ∃ values, referenceValues config = .ok values ∧ values.all Value.isShowable := by
  rw [referenceValues]
  rcases h.named with hnone | ⟨name, htext⟩ | ⟨names, htexts⟩
  · rw [hnone]
    exact ⟨[], rfl, rfl⟩
  · rw [htext]
    simp only
    split
    · exact ⟨[], rfl, rfl⟩
    · exact ⟨[.text name], rfl, rfl⟩
  · rw [htexts]
    simp only
    split
    · exact ⟨[], rfl, rfl⟩
    · refine ⟨names.map .text, rfl, List.all_eq_true.2 fun value hvalue => ?_⟩
      obtain ⟨name, -, rfl⟩ := List.mem_map.1 hvalue
      rfl

theorem Usable.exists_references {reader : Yaml.Reader} {space : Workspace} {path : Path} {config : Entries}
    (h : Usable reader space path config) : ∃ names, references config = .ok names := by
  obtain ⟨values, hvalues, -⟩ := h.exists_values
  rw [references, hvalues]
  exact ⟨_, rfl⟩

theorem Usable.assembled {reader : Yaml.Reader} {space : Workspace} {path : Path} {config : Entries}
    (h : Usable reader space path config) (parents : Entries) :
    assembled config parents = .ok (mergeOnto parents (Entries.remove "extends" config)) := by
  obtain ⟨values, hvalues, hall⟩ := h.exists_values
  rw [Config.assembled, if_pos]
  rw [isWritten, hvalues]
  exact hall

def Call.Usable (reader : Yaml.Reader) (space : Workspace) : Call → Prop
  | .file seen path => space.resolve path ∉ seen → ∃ config, Config.Usable reader space path config
  | .preset .. => True

theorem Call.Makes.within {reader : Yaml.Reader} {space : Workspace} {outermost call made : Call} {around : List Call}
    (hmakes : Call.Makes reader space outermost made) (h : Call.Within reader space made around call) :
    Call.Within reader space outermost (around ++ [outermost]) call := by
  induction h with
  | outermost => exact .made .outermost hmakes
  | made _ hlast ih => exact .made ih hlast

theorem result_loadFile {reader : Yaml.Reader} (hkeyed : reader.Keyed) {space : Workspace} {seen : List Location}
    {path : Path}
    (husable : ∀ around call, Call.Within reader space (.file seen path) around call → call.Usable reader space)
    (hlooks : ∀ around call, Call.Within reader space (.file seen path) around call → call.Looks reader space)
    (hconsistent : Consistent (lineage reader space seen path)) :
    (loadFile reader space seen path).result = .ok (mergeAll (lineage reader space seen path)) := by
  -- Every call that is made has one file more open, so that fewer are left.
  induction hmeasure : remaining space seen using Nat.strongRecOn generalizing seen path with
  | ind n ih =>
    subst hmeasure
    rw [loadFile_eq_step]
    by_cases hnew : space.resolve path ∈ seen
    · rw [step_of_mem hnew, lineage_of_mem hnew]
      rfl
    · obtain ⟨config, hconfig⟩ := husable [] _ .outermost hnew
      obtain ⟨names, hnames⟩ := hconfig.exists_references
      have hnamesOf : namesOf config = names := by rw [namesOf, hnames]; rfl
      have hwell := wellKeyed_of_mem_lineage hkeyed space seen path
      rw [lineage_of_readFile hnew hconfig.read, hnamesOf] at hconsistent hwell ⊢
      have hfollowed : ∀ name ∈ names,
          (followed space (loadFile reader space) (space.resolve path :: seen) path.parent name).result =
            .ok (mergeAll (contributed reader space (space.resolve path :: seen) path.parent name)) := by
        intro name hname
        have hfollows : Call.Follows reader space seen path name := ⟨hnew, config, names, hconfig.read, hnames, hname⟩
        -- What one reference brings in is a piece of the row, so that its values agree as well.
        have hpart : contributed reader space (space.resolve path :: seen) path.parent name ⊆
            names.flatMap (contributed reader space (space.resolve path :: seen) path.parent) ++
              [Entries.remove "extends" config] :=
          fun file hfile => List.mem_append_left _ (List.mem_flatMap.2 ⟨name, hname, hfile⟩)
        rw [followed]
        rw [contributed] at hpart ⊢
        by_cases hpreset : isPresetName name
        · rw [if_pos hpreset, if_pos hpreset]
          cases hfound : preset? name with
          | none => rfl
          | some entries =>
            rw [Option.toList_some, mergeAll_singleton (wellKeyed_of_preset? hfound)]
            rfl
        · rw [if_neg hpreset] at hpart ⊢
          rw [if_neg hpreset]
          have hpreset : isPresetName name = false := by simpa using hpreset
          obtain ⟨found, hlook⟩ := hlooks [] _ .outermost name hfollows hpreset
          have hhas : space.has (target path.parent name) = found.isSome := by
            rw [Workspace.has, Workspace.node?, hlook]
          rw [hhas] at hpart ⊢
          rw [hlook]
          cases found with
          | none => rfl
          | some node =>
            have hmakes : Call.Makes reader space (.file seen path)
                (.file (space.resolve path :: seen) (target path.parent name)) :=
              .file hfollows hpreset hlook
            exact ih _ (remaining_lt_of_readFile hconfig.read hnew)
              (fun _ call h => husable _ call (hmakes.within h))
              (fun _ call h => hlooks _ call (hmakes.within h))
              (fun a ha b hb => hconsistent a (hpart ha) b (hpart hb)) rfl
      have hparents := result_merged hfollowed [] (List.forall_mem_append.1 hwell).1
        hconsistent.of_append_left
      have hnone : mergeAll [] = [] := rfl
      rw [hnone, List.nil_append] at hparents
      rw [step_of_notMem hnew, opened, hconfig.read]
      simp only [hnames]
      rw [result_andThen hparents, mergeAll_concat, hconfig.assembled]
      rfl

/-- Where all files on the way can be used and their values are of the same kinds, a configuration is loaded
exactly if every reference can be looked up, and it is all that it is merged from, in one row. So what is
neither a mapping nor a list is the last of its kind, lists are joined, and no references are left. -/
theorem loadFile_flat {reader : Yaml.Reader} (hkeyed : reader.Keyed) (space : Workspace) (path : Path)
    (husable : ∀ around call, Call.Within reader space (.file [] path) around call → call.Usable reader space)
    (hconsistent : Consistent (lineage reader space [] path)) :
    ((∃ config, (loadFile reader space [] path).result = .ok config) ↔
      ∀ around call, Call.Within reader space (.file [] path) around call → call.Looks reader space) ∧
    ∀ config, (loadFile reader space [] path).result = .ok config →
      config = mergeAll (lineage reader space [] path) ∧ config.get? "extends" = none ∧
        ∀ key keys,
          let values := valuesAt (lineage reader space [] path) (key :: keys)
          let found := (Value.mapping config).at? (key :: keys)
          (values = [] → found = none) ∧
            (∀ v ∈ values, v.kind = .other → found = values.getLast?) ∧
              ∀ v ∈ values, v.kind = .list → found = some (.list (values.flatMap itemsOf)) := by
  have hlooks (h : ∃ config, (loadFile reader space [] path).result = .ok config) (around : List Call) (call : Call)
      (hwithin : Call.Within reader space (.file [] path) around call) : call.Looks reader space :=
    (hwithin.loads h).looks
  refine ⟨⟨hlooks, fun h => ⟨_, result_loadFile hkeyed husable h hconsistent⟩⟩, fun config hresult => ?_⟩
  obtain rfl : config = mergeAll (lineage reader space [] path) :=
    Except.ok.inj (hresult.symm.trans (result_loadFile hkeyed husable (hlooks ⟨config, hresult⟩) hconsistent))
  refine ⟨rfl, ?_, ?_⟩
  · apply get?_of_valueOf?_eq_none
    exact valueOf?_mergeAll_eq_none (wellKeyed_of_mem_lineage hkeyed space [] path) hconsistent
      (extends_of_mem_lineage reader space [] path)
  · intro key keys values found
    have hfound : found = values.foldl (fun below v => layered below (some v)) none :=
      at?_mergeAll (wellKeyed_of_mem_lineage hkeyed space [] path) hconsistent key keys
    rw [hfound]
    refine ⟨fun hnil => ?_, fun v hv hkind => ?_, fun v hv hkind => ?_⟩
    · rw [hnil]
      rfl
    · exact foldl_layered_of_other fun w hw => (kind_eq_of_mem_valuesAt hconsistent hw hv).trans hkind
    · exact foldl_layered_of_list (List.ne_nil_of_mem hv)
        fun w hw => (kind_eq_of_mem_valuesAt hconsistent hw hv).trans hkind

theorem loadFile_flat_preset :
    let reader : Yaml.Reader := Value.ofYaml
    let space : Workspace := { tree := { nodes := [
      (["a.yaml"], .file "extends: [a.yaml, '@vibecss/web', b.yaml]\nexclude_dirs: [out]\n".toUTF8)] } }
    let excluded := Value.texts [".git", "node_modules", "dist", "build", "out"]
    lineage reader space [] (Path.ofText "a.yaml") = [web, [(.text "exclude_dirs", .texts ["out"])]] ∧
      ∃ config, (loadFile reader space [] (Path.ofText "a.yaml")).result = .ok config ∧
        (Value.mapping config).at? [.text "exclude_dirs"] = some excluded := by
  intro reader space excluded
  let a := Path.ofText "a.yaml"
  let config : Entries := [
    (.text "extends", .texts ["a.yaml", "@vibecss/web", "b.yaml"]), (.text "exclude_dirs", .texts ["out"])]
  have hread : readFile reader space a = .ok config := by decide +kernel
  have hnames : references config = .ok ["a.yaml", "@vibecss/web", "b.yaml"] := by decide +kernel
  have hcalls (around : List Call) (call : Call) (h : Call.Within reader space (.file [] a) around call) :
      call = .file [] a ∨ call = .file [["a.yaml"]] a ∨ ∃ seen name, call = .preset seen name := by
    induction h with
    | outermost => exact Or.inl rfl
    | made _ hmakes ih =>
      rcases ih with rfl | rfl | ⟨seen, name, rfl⟩
      · cases hmakes with
        | @file _ _ name _ h hname hlook =>
          obtain ⟨-, config', names', hread', hnames', hmem⟩ := h
          obtain rfl := Except.ok.inj (hread.symm.trans hread')
          obtain rfl := Except.ok.inj (hnames.symm.trans hnames')
          simp only [List.mem_cons, List.not_mem_nil, or_false] at hmem
          rcases hmem with rfl | rfl | rfl
          · exact Or.inr (Or.inl rfl)
          · exact absurd hname (by decide)
          · have hnone : space.look (target a.parent "b.yaml") = .ok none := by decide +kernel
            rw [hnone] at hlook
            cases Except.ok.inj hlook
        | preset => exact Or.inr (Or.inr ⟨_, _, rfl⟩)
      · obtain ⟨location, -, hopens, hnew, -⟩ := hmakes.seen_eq
        obtain rfl := Option.some.inj hopens
        exact absurd List.mem_cons_self hnew
      · cases hmakes
  have husable (around : List Call) (call : Call) (h : Call.Within reader space (.file [] a) around call) :
      call.Usable reader space := by
    rcases hcalls around call h with rfl | rfl | ⟨seen, name, rfl⟩
    · exact fun _ => ⟨config, hread, Or.inr (Or.inr ⟨_, rfl⟩)⟩
    · exact fun hnew => absurd List.mem_cons_self hnew
    · trivial
  have hlooks (around : List Call) (call : Call) (h : Call.Within reader space (.file [] a) around call) :
      call.Looks reader space := by
    rcases hcalls around call h with rfl | rfl | ⟨seen, name, rfl⟩
    · rintro name ⟨-, config', names', hread', hnames', hmem⟩ -
      obtain rfl := Except.ok.inj (hread.symm.trans hread')
      obtain rfl := Except.ok.inj (hnames.symm.trans hnames')
      have hall : ∀ name ∈ ["a.yaml", "@vibecss/web", "b.yaml"],
          (space.look (target a.parent name)).isOk := by decide +kernel
      cases hlook : space.look (target a.parent name) with
      | error error =>
        have hok := hall name hmem
        rw [hlook] at hok
        cases hok
      | ok found => exact ⟨found, rfl⟩
    · exact fun _ hfollows => absurd List.mem_cons_self hfollows.1
    · trivial
  have hlineage : lineage reader space [] a = [web, [(.text "exclude_dirs", .texts ["out"])]] := by
    have hself : contributed reader space [["a.yaml"]] a.parent "a.yaml" = [] := by
      rw [contributed, if_neg (by decide), if_pos (by decide +kernel)]
      exact lineage_of_mem List.mem_cons_self
    have hweb : contributed reader space [["a.yaml"]] a.parent "@vibecss/web" = [web] := by
      rw [contributed, if_pos (by decide)]
      decide +kernel
    have hgone : contributed reader space [["a.yaml"]] a.parent "b.yaml" = [] := by
      rw [contributed, if_neg (by decide), if_neg (by decide +kernel)]
    have hnamesOf : namesOf config = ["a.yaml", "@vibecss/web", "b.yaml"] := by rw [namesOf, hnames]; rfl
    have hlocation : space.resolve a = ["a.yaml"] := rfl
    rw [lineage_of_readFile List.not_mem_nil hread, hnamesOf, hlocation]
    simp only [List.flatMap_cons, List.flatMap_nil, hself, hweb, hgone]
    decide +kernel
  have hconsistent : Consistent (lineage reader space [] a) := by
    rw [hlineage]
    exact consistent_of_flat (by decide +kernel) (by decide +kernel)
  obtain ⟨hloads, hvalues⟩ := loadFile_flat Yaml.keyed_ofYaml space a husable hconsistent
  obtain ⟨config, hresult⟩ := hloads.2 hlooks
  obtain ⟨-, -, hat⟩ := hvalues config hresult
  obtain ⟨-, -, hlist⟩ := hat (.text "exclude_dirs") []
  have hboth : valuesAt (lineage reader space [] a) [.text "exclude_dirs"] =
      [.texts [".git", "node_modules", "dist", "build"], .texts ["out"]] := by
    rw [hlineage]
    decide +kernel
  refine ⟨hlineage, config, hresult, ?_⟩
  rw [hlist (.texts ["out"]) (by rw [hboth]; simp) rfl, hboth]
  rfl

def overlong : List Char := List.replicate 256 'n'

/-- A reference to a file that there cannot be, since its name is too long, is not passed over. -/
theorem overlong_reference_fails :
    let reader : Yaml.Reader := Value.ofYaml
    let name := String.ofList overlong
    let text := "extends: '".toList ++ overlong ++ "'\nprefix: x\n".toList
    let space : Workspace := { tree := { nodes := [(["a.yaml"], .file (String.ofList text).toUTF8)] } }
    let a := Path.ofText "a.yaml"
    readFile reader space a = .ok [(.text "extends", .text name), (.text "prefix", .text "x")] ∧
      lineage reader space [] a = [[(.text "prefix", .text "x")]] ∧
        (loadFile reader space [] a).result = .error (.file { fault := .tooLong, path := { parts := [name] } }) := by
  intro reader name text space a
  let config : Entries := [(.text "extends", .text name), (.text "prefix", .text "x")]
  have hread : readFile reader space a = .ok config := by
    have hbytes : space.read a = .ok (String.ofList text).toUTF8 := rfl
    have hvalue : Value.ofYaml true (Text.unifyNewlines (String.ofList text)) = .ok (.mapping config) := by
      have hfrom : Text.unifyFrom [] text = text := by decide +kernel
      rw [Text.unifyNewlines, String.toList_ofList, hfrom, Value.ofYaml, String.toList_ofList]
      decide +kernel
    rw [readFile_of_text hbytes hvalue]
    rfl
  have hnames : references config = .ok [name] := by decide +kernel
  have hpreset : ¬isPresetName name := by
    rw [isPresetName, Text.beginsWith, String.toList_ofList]
    decide +kernel
  have htarget : target a.parent name = { parts := [name] } := by
    have hname : Path.ofText name = { parts := [name] } := by
      rw [Path.ofText, Path.partsOf, String.toList_ofList]
      decide +kernel
    rw [target, hname]
    rfl
  have hlook : space.look { parts := [name] } = .error { fault := .tooLong, path := { parts := [name] } } := by
    have hfault : Path.fault? { parts := [name] } = none := by
      simp only [Path.fault?, Path.hasZeroByte, List.any_cons, name, String.toList_ofList]
      decide +kernel
    have hwalk : space.tree.walk (space.start { parts := [name] }) [name] = .error .tooLong := by
      decide +kernel
    rw [Workspace.look, Workspace.locate, hfault]
    simp only [hwalk]
    rfl
  have hlocation : space.resolve a = ["a.yaml"] := rfl
  refine ⟨hread, ?_, ?_⟩
  · have hnamesOf : namesOf config = [name] := by rw [namesOf, hnames]; rfl
    have hnone : contributed reader space [["a.yaml"]] a.parent name = [] := by
      rw [contributed, if_neg hpreset, htarget, Workspace.has, Workspace.node?, hlook]
      rfl
    rw [lineage_of_readFile List.not_mem_nil hread, hnamesOf, hlocation, List.flatMap_singleton, hnone]
    rfl
  · have hfollowed : followed space (loadFile reader space) [["a.yaml"]] a.parent name =
        .of (.error (.file { fault := .tooLong, path := { parts := [name] } })) := by
      rw [followed, if_neg hpreset, htarget, hlook]
    rw [loadFile_eq_step, step_of_notMem List.not_mem_nil, opened, hread]
    simp only [hnames]
    rw [hlocation, merged, hfollowed]
    rfl

end UtilityCss.Config
