import UtilityCss.Proofs.CommandRuns
import UtilityCss.Proofs.ValidSettings

/-!
# What keeps a configuration from being validated

Loading a configuration fails at the first thing that fails: a file that cannot be read, references that are
none, a reference that cannot be looked up or leads to a file that fails, or one that cannot be written.
Checking what was loaded fails when the keys without a meaning cannot be listed. The line that validates a
configuration ends exactly when it can explain the fault.
-/

namespace UtilityCss.Config
open Entries

/-! ### The first fault -/

section Faults

variable {reader : Yaml.Reader} {space : Workspace} {seen : List Location} {path : Path} {config : Entries}
  {names : List String} {name : String} {fault : Fault}

theorem result_andThen_eq_error {loaded : Loaded} {next : Entries → Loaded} :
    (loaded.andThen next).result = .error fault ↔
      loaded.result = .error fault ∨
        ∃ entries, loaded.result = .ok entries ∧ (next entries).result = .error fault := by
  cases hresult : loaded.result with
  | ok entries =>
    rw [result_andThen hresult]
    simp
  | error other =>
    have hsame : loaded.andThen next = loaded := by rw [Loaded.andThen, hresult]
    rw [hsame, hresult]
    simp

theorem result_merged_eq_error {load : String → Loaded} {below : Entries} :
    (merged load below names).result = .error fault ↔
      ∃ before name after, names = before ++ name :: after ∧
        (∀ other ∈ before, ∃ part, (load other).result = .ok part) ∧ (load name).result = .error fault := by
  induction names generalizing below with
  | nil => simp [merged, Loaded.of]
  | cons first names ih =>
    rw [merged, result_andThen_eq_error]
    constructor
    · rintro (hfirst | ⟨part, hpart, hrest⟩)
      · exact ⟨[], first, names, rfl, List.forall_mem_nil _, hfirst⟩
      · obtain ⟨before, name, after, rfl, hbefore, hname⟩ := ih.1 hrest
        exact ⟨first :: before, name, after, rfl, List.forall_mem_cons.2 ⟨⟨part, hpart⟩, hbefore⟩, hname⟩
    · rintro ⟨before, name, after, heq, hbefore, hname⟩
      cases before with
      | nil =>
        obtain ⟨rfl, rfl⟩ := List.cons.inj heq
        exact Or.inl hname
      | cons other before =>
        obtain ⟨rfl, rfl⟩ := List.cons.inj heq
        obtain ⟨⟨part, hpart⟩, hbefore⟩ := List.forall_mem_cons.1 hbefore
        exact Or.inr ⟨part, hpart, ih.2 ⟨before, name, after, rfl, hbefore, hname⟩⟩

theorem result_followed_eq_error {next : Loader} {folder : Path} :
    (followed space next seen folder name).result = .error fault ↔
      isPresetName name = false ∧
        ((∃ error, space.look (target folder name) = .error error ∧ fault = .file error) ∨
          ∃ node, space.look (target folder name) = .ok (some node) ∧
            (next seen (target folder name)).result = .error fault) := by
  rw [followed]
  split
  · rename_i hpreset
    cases hfound : preset? name <;> simp [hpreset, Loaded.of]
  · rename_i hpreset
    rw [Bool.not_eq_true] at hpreset
    rcases space.look (target folder name) with error | _ | node <;>
      simp [hpreset, Loaded.of, eq_comm]

theorem eq_mistyped_of_referenceValues (h : referenceValues config = .error fault) : fault = .mistyped := by
  unfold referenceValues at h
  split at h
  · cases h
  · split at h
    · cases h
    · split at h <;> cases h
      rfl

theorem eq_unwritable_of_assembled {parents : Entries} (h : assembled config parents = .error fault) :
    isWritten config = false ∧ fault = .unwritable := by
  unfold assembled at h
  split at h
  · cases h
  · rename_i hcut
    exact ⟨by simpa using hcut, (Except.error.inj h).symm⟩

/-! ### Files that fail -/

def Succeeds (reader : Yaml.Reader) (space : Workspace) (seen : List Location) (path : Path) (name : String) : Prop :=
  ∃ part, (followed space (loadFile reader space) (space.resolve path :: seen) path.parent name).result = .ok part

def Tries (reader : Yaml.Reader) (space : Workspace) (seen : List Location) (path : Path) (name : String) : Prop :=
  space.resolve path ∉ seen ∧ ∃ config before after, readFile reader space path = .ok config ∧
    references config = .ok (before ++ name :: after) ∧ ∀ other ∈ before, Succeeds reader space seen path other

/-- How loading a file fails, when the files at `seen` are open. -/
inductive Fails (reader : Yaml.Reader) (space : Workspace) : List Location → Path → Fault → Prop
  | unread {seen : List Location} {path : Path} {fault : Fault} (hnew : space.resolve path ∉ seen)
      (hread : readFile reader space path = .error fault) : Fails reader space seen path fault
  | mistyped {seen : List Location} {path : Path} {config : Entries} (hnew : space.resolve path ∉ seen)
      (hread : readFile reader space path = .ok config) (hvalues : referenceValues config = .error .mistyped) :
      Fails reader space seen path .mistyped
  | lookup {seen : List Location} {path : Path} {name : String} {error : FileError}
      (htries : Tries reader space seen path name) (hname : isPresetName name = false)
      (hlook : space.look (target path.parent name) = .error error) : Fails reader space seen path (.file error)
  | deeper {seen : List Location} {path : Path} {name : String} {node : Node} {fault : Fault}
      (htries : Tries reader space seen path name) (hname : isPresetName name = false)
      (hlook : space.look (target path.parent name) = .ok (some node))
      (hfails : Fails reader space (space.resolve path :: seen) (target path.parent name) fault) :
      Fails reader space seen path fault
  | unwritten {seen : List Location} {path : Path} {config : Entries} {names : List String}
      (hnew : space.resolve path ∉ seen) (hread : readFile reader space path = .ok config)
      (hnames : references config = .ok names) (hall : ∀ name ∈ names, Succeeds reader space seen path name)
      (hcut : isWritten config = false) : Fails reader space seen path .unwritable

theorem Tries.result (h : Tries reader space seen path name)
    (hname : (followed space (loadFile reader space) (space.resolve path :: seen) path.parent name).result =
      .error fault) : (loadFile reader space seen path).result = .error fault := by
  obtain ⟨hnew, config, before, after, hread, hnames, hbefore⟩ := h
  rw [loadFile_of_references hnew hread hnames, result_andThen_eq_error]
  exact Or.inl (result_merged_eq_error.2 ⟨before, name, after, rfl, hbefore, hname⟩)

theorem Fails.result (h : Fails reader space seen path fault) :
    (loadFile reader space seen path).result = .error fault := by
  induction h with
  | unread hnew hread =>
    rw [loadFile_eq_step, step_of_notMem hnew, opened, hread]
    rfl
  | mistyped hnew hread hvalues =>
    rw [loadFile_eq_step, step_of_notMem hnew, opened, hread]
    simp only [references, hvalues]
    rfl
  | lookup htries hname hlook =>
    exact htries.result (result_followed_eq_error.2 ⟨hname, Or.inl ⟨_, hlook, rfl⟩⟩)
  | deeper htries hname hlook _ ih =>
    exact htries.result (result_followed_eq_error.2 ⟨hname, Or.inr ⟨_, hlook, ih⟩⟩)
  | @unwritten seen path config names hnew hread hnames hall hcut =>
    rw [loadFile_of_references hnew hread hnames, result_andThen_eq_error]
    cases hmerged :
        (merged (followed space (loadFile reader space) (space.resolve path :: seen) path.parent) [] names).result with
    | ok parents =>
      refine Or.inr ⟨parents, rfl, ?_⟩
      simp [Loaded.of, assembled, hcut]
    | error other =>
      obtain ⟨before, name, after, rfl, -, hname⟩ := result_merged_eq_error.1 hmerged
      obtain ⟨part, hpart⟩ := hall name (by simp)
      rw [hpart] at hname
      cases hname

theorem result_loadFile_eq_error : (loadFile reader space seen path).result = .error fault ↔
    Fails reader space seen path fault := by
  refine ⟨fun h => ?_, Fails.result⟩
  -- Every call that is made has one file more open, so that fewer are left.
  induction hmeasure : remaining space seen using Nat.strongRecOn generalizing seen path with
  | ind n ih =>
    subst hmeasure
    by_cases hnew : space.resolve path ∈ seen
    · rw [loadFile_eq_step, step_of_mem hnew] at h
      cases h
    · cases hread : readFile reader space path with
      | error other =>
        rw [loadFile_eq_step, step_of_notMem hnew, opened, hread] at h
        cases h
        exact .unread hnew hread
      | ok config =>
        cases hvalues : referenceValues config with
        | error other =>
          rw [loadFile_eq_step, step_of_notMem hnew, opened, hread] at h
          simp only [references, hvalues] at h
          cases h
          obtain rfl := eq_mistyped_of_referenceValues hvalues
          exact .mistyped hnew hread hvalues
        | ok values =>
          have hnames : references config = .ok ((values.takeWhile Value.isShowable).map Value.shown) := by
            rw [references, hvalues]
            rfl
          generalize (values.takeWhile Value.isShowable).map Value.shown = names at hnames
          rw [loadFile_of_references hnew hread hnames, result_andThen_eq_error] at h
          rcases h with h | ⟨parents, hparents, h⟩
          · obtain ⟨before, name, after, rfl, hbefore, hname⟩ := result_merged_eq_error.1 h
            have htries : Tries reader space seen path name := ⟨hnew, config, before, after, hread, hnames, hbefore⟩
            obtain ⟨hpreset, ⟨error, hlook, rfl⟩ | ⟨node, hlook, hfails⟩⟩ := result_followed_eq_error.1 hname
            · exact .lookup htries hpreset hlook
            · exact .deeper htries hpreset hlook
                (ih _ (remaining_lt_of_readFile hread hnew) hfails rfl)
          · obtain ⟨hcut, rfl⟩ := eq_unwritable_of_assembled h
            exact .unwritten hnew hread hnames (exists_of_result_merged hparents) hcut

end Faults

/-! ### Keys without a meaning -/

theorem eraseDupsBy_loop_eq {α : Type} {r : α → α → Bool} (xs done : List α)
    (h : (done.reverse ++ xs).Pairwise fun a b => r b a = false) :
    List.eraseDupsBy.loop r xs done = done.reverse ++ xs := by
  induction xs generalizing done with
  | nil => rw [List.eraseDupsBy.loop, List.append_nil]
  | cons x xs ih =>
    have hnone : done.any (r x) = false := by
      rw [List.any_eq_false]
      intro y hy
      have hxy := (List.pairwise_append.1 h).2.2 y (List.mem_reverse.2 hy) x List.mem_cons_self
      simp [hxy]
    have hmoved : (x :: done).reverse ++ xs = done.reverse ++ x :: xs := by simp
    rw [List.eraseDupsBy.loop, hnone]
    simp only
    rw [ih (x :: done) (by rwa [hmoved]), hmoved]

theorem mem_insertOrdered {x entry : Scalar} {keys : List Scalar} :
    x ∈ Scalar.insertOrdered entry keys ↔ x = entry ∨ x ∈ keys := by
  induction keys with
  | nil => simp [Scalar.insertOrdered]
  | cons other rest ih =>
    rw [Scalar.insertOrdered]
    split
    · rw [List.mem_cons, ih, List.mem_cons]
      tauto
    · rw [List.mem_cons]

theorem mem_foldr_insertOrdered {x : Scalar} {keys : List Scalar} :
    x ∈ keys.foldr Scalar.insertOrdered [] ↔ x ∈ keys := by
  induction keys with
  | nil => rfl
  | cons key keys ih => rw [List.foldr_cons, mem_insertOrdered, ih, List.mem_cons]

/-- The keys without a meaning can be put in order, since they are of one kind or at most one, and all of them
can be written. -/
def Listable (config : Entries) : Prop :=
  ((unknownKeys config).length ≤ 1 ∨ ∃ kind, ∀ key ∈ unknownKeys config, key.kind? = some kind) ∧
    ∀ key ∈ unknownKeys config, key.isShowable = true

theorem exists_ordered? {keys : List Scalar} (hkeys : (keys.map Scalar.identity).Nodup) :
    (∃ listed, Scalar.ordered? keys = some listed ∧ ∀ key, key ∈ listed ↔ key ∈ keys) ∧
        (keys.length ≤ 1 ∨ ∃ kind, ∀ key ∈ keys, key.kind? = some kind) ∨
      Scalar.ordered? keys = none ∧
        ¬(keys.length ≤ 1 ∨ ∃ kind, ∀ key ∈ keys, key.kind? = some kind) := by
  have hdistinct : keys.eraseDupsBy Scalar.equals = keys := by
    refine eraseDupsBy_loop_eq keys [] ?_
    refine (List.pairwise_map.1 hkeys).imp fun {a b} hne => ?_
    rw [← Bool.not_eq_true, Scalar.equals_iff]
    exact Ne.symm hne
  rw [Scalar.ordered?, hdistinct]
  rcases keys with _ | ⟨first, _ | ⟨second, rest⟩⟩
  · exact Or.inl ⟨⟨[], rfl, fun key => Iff.rfl⟩, Or.inl (Nat.zero_le 1)⟩
  · exact Or.inl ⟨⟨[first], rfl, fun key => Iff.rfl⟩, Or.inl (Nat.le_refl 1)⟩
  · have hkind : (first.kind?.isSome && (second :: rest).all fun key => key.kind? = first.kind?) = true ↔
        ∃ kind, ∀ key ∈ first :: second :: rest, key.kind? = some kind := by
      rw [Bool.and_eq_true, List.all_eq_true]
      constructor
      · rintro ⟨hsome, hall⟩
        obtain ⟨kind, hfirst⟩ := Option.isSome_iff_exists.1 hsome
        refine ⟨kind, List.forall_mem_cons.2 ⟨hfirst, fun key hkey => ?_⟩⟩
        rw [← hfirst]
        exact of_decide_eq_true (hall key hkey)
      · rintro ⟨kind, hall⟩
        rw [List.forall_mem_cons] at hall
        rw [hall.1]
        exact ⟨rfl, fun key hkey => decide_eq_true (hall.2 key hkey)⟩
    have hlong : ¬(first :: second :: rest).length ≤ 1 := by simp
    simp only
    split
    · rename_i h
      exact Or.inl ⟨⟨_, rfl, fun key => mem_foldr_insertOrdered⟩, Or.inr (hkind.1 h)⟩
    · rename_i h
      exact Or.inr ⟨rfl, fun hkinds => hkinds.elim hlong fun hkinds => h (hkind.2 hkinds)⟩

theorem exists_complaints_iff {config : Entries} (hkeys : (identities config).Nodup) :
    (∃ found, complaints config = .ok found) ↔ Listable config := by
  have hunknown : ((unknownKeys config).map Scalar.identity).Nodup := by
    rw [identities_eq] at hkeys
    exact hkeys.sublist (List.filter_sublist.map _)
  rw [Listable, complaints]
  rcases exists_ordered? hunknown with ⟨⟨listed, hlisted, hmem⟩, hkinds⟩ | ⟨hnone, hkinds⟩
  · rw [hlisted]
    simp only [hkinds, true_and]
    rw [← forall_congr' fun key => imp_congr_left (hmem key), ← List.all_eq_true]
    split <;> simp_all
  · rw [hnone]
    simp [hkinds]

end UtilityCss.Config

namespace UtilityCss.CommandLine
open Config

/-! ### Validating -/

section Validate

variable {events : List (Binary64 × Event)} {session configured : Session} {path : Path}

def Settled (reader : Yaml.Reader) (space : Workspace) (path : Path) : Prop :=
  match (loadAt reader space path).result with
  | .ok config => ∃ found, complaints config = .ok found
  | .error fault => isExplained fault = true

theorem validateConfig_cases (path : Path) (session : Session) :
    (∃ code after, validateConfig path session = .ok code after ∧ code ≤ 1) ∧
        Settled session.reader session.space path ∨
      (∃ crash after, validateConfig path session = .error crash after) ∧
        ¬Settled session.reader session.space path := by
  rw [Settled]
  cases hload : (loadAt session.reader session.space path).result with
  | error fault =>
    obtain ⟨warned, -, hread⟩ := readConfig_of_error hload
    simp only [validateConfig, Task.bind_apply, hread]
    cases isExplained fault with
    | true => exact Or.inl ⟨⟨1, _, rfl, Nat.le_refl 1⟩, rfl⟩
    | false => exact Or.inr ⟨⟨_, _, rfl⟩, nofun⟩
  | ok config =>
    obtain ⟨warned, -, hread⟩ := readConfig_of_ok hload
    simp only [validateConfig, Task.bind_apply, hread, checked]
    cases complaints config with
    | error fault => exact Or.inr ⟨⟨_, _, rfl⟩, nofun⟩
    | ok found =>
      cases found with
      | nil => exact Or.inl ⟨⟨0, _, rfl, Nat.zero_le 1⟩, _, rfl⟩
      | cons complaint rest => exact Or.inl ⟨⟨1, _, rfl, Nat.le_refl 1⟩, _, rfl⟩

theorem reader_of_configure {level format : Option String} {force : Bool}
    (h : session.configure level format force = .ok configured) : configured.reader = session.reader := by
  rw [Session.configure] at h
  split at h
  · rename_i hreconfigure
    rw [← Except.ok.inj h]
    exact congrArg (fun result => result.1.reader) hreconfigure.symm
  · cases h

theorem ends_validate_iff_settled (hconfigure : session.configure none none false = .ok configured) :
    Ends ["validate"] events session ↔
      ∀ path, Config.find? configured.space = some path → Settled configured.reader configured.space path := by
  have hstart := start_of_request hconfigure parse_validate rfl
  have hpath : configPath? none configured.space = Config.find? configured.space := rfl
  simp only [perform, Task.map_apply, runValidate, Task.bind_apply, Task.ask_apply, hpath] at hstart
  cases hfind : Config.find? configured.space with
  | none =>
    rw [hfind] at hstart
    exact ⟨fun _ => nofun, fun _ => ends_of_done hstart (Nat.le_refl 1)⟩
  | some path =>
    rw [hfind] at hstart
    simp only at hstart
    have hone : (∀ other, some path = some other → Settled configured.reader configured.space other) ↔
        Settled configured.reader configured.space path :=
      ⟨fun h => h path rfl, fun h other hother => Option.some.inj hother ▸ h⟩
    rw [hone]
    rcases validateConfig_cases path configured with ⟨⟨code, after, hcode, hle⟩, hsettled⟩ |
      ⟨⟨crash, after, hcrash⟩, hsettled⟩
    · rw [hcode] at hstart
      exact ⟨fun _ => hsettled, fun _ => ends_of_done hstart hle⟩
    · rw [hcrash] at hstart
      exact ⟨fun h => absurd h (not_ends_of_error hstart), fun h => absurd h hsettled⟩

theorem settled_iff {reader : Yaml.Reader} (hkeyed : reader.Keyed) {space : Workspace}
    (hfind : Config.find? space = some path) :
    Settled reader space path ↔ (size space path ≤ maxSize →
      (∀ fault, Fails reader space [] path fault → isExplained fault = true) ∧
        ∀ config, (loadFile reader space [] path).result = .ok config → Listable config) := by
  obtain ⟨node, hlook⟩ := look_of_find? hfind
  rw [Settled, loadAt, hlook]
  by_cases hsize : maxSize < size space path
  · simp only [if_pos hsize]
    exact ⟨fun _ h => absurd h (Nat.not_le.2 hsize), fun _ => rfl⟩
  · simp only [if_neg hsize, ← result_loadFile_eq_error]
    rw [forall_prop_of_true (Nat.not_lt.1 hsize)]
    cases hload : (loadFile reader space [] path).result with
    | ok config => simp [exists_complaints_iff (nodup_of_loadFile hkeyed hload)]
    | error fault => simp

def inFolder (text : String) : Session :=
  { space := { tree := { nodes := [(["vibecss.yaml"], .file text.toUTF8), (["d"], .folder)] } } }

theorem ends_inFolder_iff (text : String) : Ends ["validate"] [] (inFolder text) ↔
    Settled Value.ofYaml (inFolder text).space (Path.ofText fileName) := by
  obtain ⟨configured, hconfigure, hspace, hreader⟩ : ∃ configured,
      (inFolder text).configure none none false = .ok configured ∧
        configured.space = (inFolder text).space ∧ configured.reader = Value.ofYaml := ⟨_, rfl, rfl, rfl⟩
  have hfind : Config.find? (inFolder text).space = some (Path.ofText fileName) := rfl
  rw [ends_validate_iff_settled hconfigure, hspace, hreader, hfind]
  exact ⟨fun h => h _ rfl, fun h other hother => Option.some.inj hother ▸ h⟩

end Validate

end UtilityCss.CommandLine
