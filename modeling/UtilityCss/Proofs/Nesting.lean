import Mathlib.Data.List.Dedup
import Mathlib.Data.List.Perm.Subperm
import Mathlib.Logic.Function.Iterate
import UtilityCss.Config.Load

/-!
# Calls within calls

Loading a configuration makes a call for every reference in it. The locations that a call is given as open are
those of the calls around it, no two of them alike, so that calls are nested no deeper than there are
configurations. A call depends on the calls within it only through what they give, and each of these is judged
by the calls around it alone, whatever was loaded beside it.
-/

namespace UtilityCss.Config

/-! ### The configurations of a workspace -/

def isConfigAt (reader : Yaml.Reader) (space : Workspace) (location : Location) : Bool :=
  match space.tree.node? location with
  | some (.file bytes) => (ofBytes reader (.ofLocation location) bytes).isOk
  | _ => false

def configs (reader : Yaml.Reader) (space : Workspace) : List Location :=
  ((space.tree.nodes.map Prod.fst).filter (isConfigAt reader space)).dedup

section Workspace

variable {reader : Yaml.Reader} {space : Workspace} {path : Path} {config : Entries}

theorem ofBytes_eq_ok {bytes : ByteArray} (h : ofBytes reader path bytes = .ok config)
    (other : Path) : ofBytes reader other bytes = .ok config := by
  unfold ofBytes at h ⊢
  split at h
  · cases h
  · rename_i text _
    cases hvalue : reader true (Text.unifyNewlines text) with
    | error fault =>
      rw [hvalue] at h
      cases h
    | ok value =>
      rw [hvalue] at h
      simp only [ofValue] at h ⊢
      split at h
      · rename_i hempty
        rw [if_pos hempty]
        exact h
      · rename_i hholds
        rw [if_neg hholds]
        split at h
        · exact h
        · cases h

theorem mem_configs (h : readFile reader space path = .ok config) : space.resolve path ∈ configs reader space := by
  obtain ⟨node, hnode⟩ := exists_node_of_readFile h
  rw [configs, List.mem_dedup, List.mem_filter]
  refine ⟨List.mem_map.2 ⟨_, hnode, rfl⟩, ?_⟩
  cases hread : space.read path with
  | error error =>
    rw [readFile, hread] at h
    cases h
  | ok bytes =>
    rw [readFile, hread] at h
    rw [isConfigAt, node?_of_read hread]
    simp only
    rw [ofBytes_eq_ok h]
    rfl

end Workspace

/-! ### Calls -/

/-- A call for a file or a preset, with the locations that are open around it. -/
inductive Call
  | file (seen : List Location) (path : Path)
  | preset (seen : List Location) (reference : String)

namespace Call

def seen : Call → List Location
  | file seen _ | preset seen _ => seen

def opens (space : Workspace) : Call → Option Location
  | file _ path => some (space.resolve path)
  | preset .. => none

def Follows (reader : Yaml.Reader) (space : Workspace) (seen : List Location) (path : Path) (reference : String) :
    Prop :=
  space.resolve path ∉ seen ∧ ∃ config names, readFile reader space path = .ok config ∧
    references config = .ok names ∧ reference ∈ names

inductive Makes (reader : Yaml.Reader) (space : Workspace) : Call → Call → Prop
  | file {seen : List Location} {path : Path} {reference : String} {node : Node}
      (h : Follows reader space seen path reference) (hname : isPresetName reference = false)
      (hlook : space.look (target path.parent reference) = .ok (some node)) :
      Makes reader space (.file seen path) (.file (space.resolve path :: seen) (target path.parent reference))
  | preset {seen : List Location} {path : Path} {reference : String} {entries : Entries}
      (h : Follows reader space seen path reference) (hname : isPresetName reference = true)
      (hpreset : preset? reference = some entries) :
      Makes reader space (.file seen path) (.preset (space.resolve path :: seen) reference)

/-- The calls around a call, the innermost first, on the way from an outermost one. -/
inductive Within (reader : Yaml.Reader) (space : Workspace) (outermost : Call) : List Call → Call → Prop
  | outermost : Within reader space outermost [] outermost
  | made {around : List Call} {call made : Call} (h : Within reader space outermost around call)
      (hmakes : Makes reader space call made) : Within reader space outermost (call :: around) made

variable {reader : Yaml.Reader} {space : Workspace} {call made : Call}

theorem Makes.seen_eq (h : Makes reader space call made) :
    ∃ location ∈ configs reader space, call.opens space = some location ∧ location ∉ call.seen ∧
      made.seen = location :: call.seen := by
  cases h with
  | @file seen path _ _ h _ _ =>
    obtain ⟨hnew, _, _, hread, -, -⟩ := h
    exact ⟨space.resolve path, mem_configs hread, rfl, hnew, rfl⟩
  | @preset seen path _ _ h _ _ =>
    obtain ⟨hnew, _, _, hread, -, -⟩ := h
    exact ⟨space.resolve path, mem_configs hread, rfl, hnew, rfl⟩

theorem Within.seen_eq {path : Path} {around : List Call}
    (h : Within reader space (.file [] path) around call) :
    call.seen = around.filterMap (opens space) ∧ call.seen.Nodup ∧ call.seen ⊆ configs reader space ∧
      call.seen.length = around.length := by
  induction h with
  | outermost => simp [seen]
  | made _ hmakes ih =>
    obtain ⟨heq, hnodup, hsub, hlength⟩ := ih
    obtain ⟨location, hconfig, hopens, hnew, hmade⟩ := hmakes.seen_eq
    rw [hmade]
    refine ⟨?_, List.nodup_cons.2 ⟨hnew, hnodup⟩, List.cons_subset.2 ⟨hconfig, hsub⟩, ?_⟩
    · rw [List.filterMap_cons, hopens, heq]
    · rw [List.length_cons, List.length_cons, hlength]

theorem Within.length_le {path : Path} {around : List Call}
    (h : Within reader space (.file [] path) around call) : around.length ≤ (configs reader space).length := by
  obtain ⟨-, hnodup, hsub, hlength⟩ := h.seen_eq
  have hle := (List.subperm_of_subset hnodup hsub).length_le
  omega

end Call

/-! ### One call -/

def merged (load : String → Loaded) (below : Entries) : List String → Loaded
  | [] => .of (.ok below)
  | reference :: rest =>
    (load reference).andThen fun entries => merged load (Entries.mergeOnto below entries) rest

abbrev Loader := List Location → Path → Loaded

def followed (space : Workspace) (next : Loader) (seen : List Location) (folder : Path)
    (reference : String) : Loaded :=
  if isPresetName reference then
    match preset? reference with
    | some entries => .of (.ok entries)
    | none => { notes := [unknownNote reference] }
  else match space.look (target folder reference) with
    | .error error => .of (.error (.file error))
    | .ok none => { notes := [missingNote (target folder reference)] }
    | .ok (some _) => next seen (target folder reference)

def opened (reader : Yaml.Reader) (space : Workspace) (next : Loader) : Loader := fun seen path =>
  match readFile reader space path with
  | .error fault => .of (.error fault)
  | .ok config =>
    match references config with
    | .error fault => .of (.error fault)
    | .ok references =>
      (merged (followed space next (space.resolve path :: seen) path.parent) [] references).andThen
        fun parents => .of (assembled config parents)

def step (reader : Yaml.Reader) (space : Workspace) (next : Loader) : Loader := fun seen path =>
  if seen.contains (space.resolve path) then { notes := [circularNote path] }
  else opened reader space next seen path

variable {reader : Yaml.Reader} {space : Workspace}

section Step

variable {next : Loader} {seen : List Location} {path : Path}

theorem step_of_mem (h : space.resolve path ∈ seen) :
    step reader space next seen path = { notes := [circularNote path] } :=
  if_pos (List.contains_iff_mem.2 h)

theorem step_of_notMem (h : space.resolve path ∉ seen) :
    step reader space next seen path = opened reader space next seen path :=
  if_neg fun hmem => h (List.contains_iff_mem.1 hmem)

end Step

theorem merged_congr {load load' : String → Loaded} {references : List String}
    (h : ∀ reference ∈ references, load reference = load' reference) (below : Entries) :
    merged load below references = merged load' below references := by
  induction references generalizing below with
  | nil => rfl
  | cons reference rest ih =>
    have ih := ih fun other hother => h other (List.mem_cons_of_mem reference hother)
    rw [merged, merged, h reference List.mem_cons_self]
    congr 1
    funext entries
    exact ih _

theorem step_congr {next next' : Loader} {seen : List Location} {path : Path}
    (h : ∀ inner, Call.Makes reader space (.file seen path) (.file (space.resolve path :: seen) inner) →
      next (space.resolve path :: seen) inner = next' (space.resolve path :: seen) inner) :
    step reader space next seen path = step reader space next' seen path := by
  by_cases hseen : space.resolve path ∈ seen
  · rw [step_of_mem hseen, step_of_mem hseen]
  · rw [step_of_notMem hseen, step_of_notMem hseen, opened, opened]
    cases hread : readFile reader space path with
    | error fault => rfl
    | ok config =>
      simp only
      cases hnames : references config with
      | error fault => rfl
      | ok names =>
        simp only
        rw [merged_congr fun reference hreference => ?_]
        rw [followed, followed]
        by_cases hname : isPresetName reference
        · rw [if_pos hname, if_pos hname]
        · rw [if_neg hname, if_neg hname]
          cases hlook : space.look (target path.parent reference) with
          | error error => rfl
          | ok found =>
            cases found with
            | none => rfl
            | some node =>
              exact h _ (.file ⟨hseen, config, names, hread, hnames, hreference⟩ (by simpa using hname) hlook)

theorem loadOne_eq_followed (seen : List Location) (folder : Path) (reference : String) :
    loadOne reader space seen folder reference = followed space (loadFile reader space) seen folder reference := by
  rw [loadOne]
  rfl

theorem loadAll_eq_merged (seen : List Location) (folder : Path) (below : Entries)
    (references : List String) :
    loadAll reader space seen folder below references =
      merged (followed space (loadFile reader space) seen folder) below references := by
  induction references generalizing below with
  | nil => rw [loadAll, merged]
  | cons reference rest ih =>
    rw [loadAll, merged, loadOne_eq_followed]
    congr 1
    funext entries
    exact ih _

theorem loadFile_eq_step : loadFile reader space = step reader space (loadFile reader space) := by
  funext seen path
  rw [loadFile]
  by_cases hseen : space.resolve path ∈ seen
  · rw [dif_pos hseen, step_of_mem hseen]
  · rw [dif_neg hseen, step_of_notMem hseen, opened]
    split
    · rename_i hread
      rw [hread]
    · rename_i config hread
      have hopened : opened reader space (loadFile reader space) seen path =
          match references config with
          | .error fault => .of (.error fault)
          | .ok references =>
            (merged (followed space (loadFile reader space) (space.resolve path :: seen) path.parent) []
              references).andThen
              fun parents => .of (assembled config parents) := by
        rw [opened, hread]
      rw [opened] at hopened
      rw [hopened]
      cases references config with
      | error fault => rfl
      | ok names => simp only [loadAll_eq_merged]

theorem loadFile_of_references {seen : List Location} {path : Path} {config : Entries} {names : List String}
    (hnew : space.resolve path ∉ seen) (hread : readFile reader space path = .ok config)
    (hnames : references config = .ok names) :
    loadFile reader space seen path =
      (merged (followed space (loadFile reader space) (space.resolve path :: seen) path.parent) [] names).andThen
        fun parents => .of (assembled config parents) := by
  have hstep : loadFile reader space seen path = opened reader space (loadFile reader space) seen path :=
    (congrFun (congrFun loadFile_eq_step seen) path).trans (step_of_notMem hnew)
  rw [hstep, opened, hread]
  simp only [hnames]

theorem iterate_step (next : Loader) {depth : Nat} {seen : List Location} (path : Path)
    (hnodup : seen.Nodup) (hsub : seen ⊆ configs reader space)
    (hdepth : (configs reader space).length < depth + seen.length) :
    (step reader space)^[depth] next seen path = loadFile reader space seen path := by
  induction depth generalizing seen path with
  | zero =>
    have hle := (List.subperm_of_subset hnodup hsub).length_le
    omega
  | succ depth ih =>
    rw [Function.iterate_succ_apply', loadFile_eq_step]
    refine step_congr fun inner hmakes => ?_
    obtain ⟨location, hconfig, hopens, hnew, hseen⟩ := hmakes.seen_eq
    obtain rfl := Option.some.inj hopens
    refine ih inner (List.nodup_cons.2 ⟨hnew, hnodup⟩) (List.cons_subset.2 ⟨hconfig, hsub⟩) ?_
    rw [List.length_cons]
    omega

/-- Around every call the open locations are those of the calls around it, without repetition, and there are no
more of these than configurations. So many calls within each other find out what is loaded, whatever a deeper
call would give. A file is empty exactly within a call for it, and is loaded in every other place. -/
theorem calls_nested (reader : Yaml.Reader) (space : Workspace) (path : Path) :
    (∀ around call, Call.Within reader space (.file [] path) around call →
      call.seen = around.filterMap (Call.opens space) ∧ call.seen.Nodup ∧
        around.length + 1 ≤ (configs reader space).length + presets.length + 1) ∧
    (∀ next, (step reader space)^[(configs reader space).length + presets.length + 1] next [] path =
      loadFile reader space [] path) ∧
    ∀ call seen inner, Call.Makes reader space call (.file seen inner) →
      seen = (call.opens space).toList ++ call.seen ∧
        (space.resolve inner ∈ seen →
          loadFile reader space seen inner = { notes := [circularNote inner], result := .ok [] }) ∧
        (space.resolve inner ∉ seen →
          loadFile reader space seen inner = opened reader space (loadFile reader space) seen inner) := by
  refine ⟨fun around call h => ?_, fun next => ?_, fun call seen inner h => ?_⟩
  · obtain ⟨heq, hnodup, -, -⟩ := h.seen_eq
    have hle := h.length_le
    exact ⟨heq, hnodup, by omega⟩
  · exact iterate_step next path List.nodup_nil (List.nil_subset _) (by rw [List.length_nil]; omega)
  · obtain ⟨location, -, hopens, -, hseen⟩ := h.seen_eq
    refine ⟨by rw [hopens]; exact hseen, fun hmem => ?_, fun hmem => ?_⟩
    · rw [loadFile_eq_step, step_of_mem hmem]
    · conv_lhs => rw [loadFile_eq_step, step_of_notMem hmem]

theorem calls_nested_circle :
    let reader : Yaml.Reader := Value.ofYaml
    let space : Workspace := { tree := { nodes := [
      (["a.yaml"], .file "extends: [b.yaml, ./b.yaml, a.yaml]\n".toUTF8),
      (["b.yaml"], .file "prefix: x\n".toUTF8)] } }
    let a := Path.ofText "a.yaml"
    let b := Path.ofText "b.yaml"
    [["a.yaml"]] = [Call.file [] a].filterMap (Call.opens space) ∧
      2 ≤ (configs reader space).length + presets.length + 1 ∧
        (∀ next, (step reader space)^[(configs reader space).length + presets.length + 1] next [] a =
          loadFile reader space [] a) ∧
          loadFile reader space [["a.yaml"]] a = { notes := [circularNote a], result := .ok [] } ∧
            loadFile reader space [["a.yaml"]] b = opened reader space (loadFile reader space) [["a.yaml"]] b := by
  intro reader space a b
  obtain ⟨hwithin, hiterate, hmakes⟩ := calls_nested reader space a
  have hfollows (reference : String) (h : reference ∈ ["b.yaml", "./b.yaml", "a.yaml"]) :
      Call.Follows reader space [] a reference := by
    have hnames : (readFile reader space a).bind references = .ok ["b.yaml", "./b.yaml", "a.yaml"] := by
      decide +kernel
    refine ⟨List.not_mem_nil, ?_⟩
    cases hread : readFile reader space a with
    | error fault =>
      rw [hread] at hnames
      cases hnames
    | ok config =>
      rw [hread] at hnames
      exact ⟨config, _, rfl, hnames, h⟩
  have hself : Call.Makes reader space (.file [] a) (.file [["a.yaml"]] a) :=
    .file (hfollows "a.yaml" (by decide)) (by decide) (rfl : space.look a = .ok (some (.file _)))
  have hother : Call.Makes reader space (.file [] a) (.file [["a.yaml"]] b) :=
    .file (hfollows "b.yaml" (by decide)) (by decide) (rfl : space.look b = .ok (some (.file _)))
  obtain ⟨hseen, -, hlength⟩ := hwithin _ _ (.made .outermost hself)
  obtain ⟨-, hcircular, -⟩ := hmakes _ _ _ hself
  obtain ⟨-, -, hopened⟩ := hmakes _ _ _ hother
  exact ⟨hseen, hlength, hiterate, hcircular (by decide), hopened (by decide)⟩

end UtilityCss.Config
