import UtilityCss.Proofs.CommandRuns
import UtilityCss.Proofs.PassOutcomes
import UtilityCss.Proofs.ValidSettings

/-!
# Passes with a configuration that is valid

A configuration without complaints gives options and, unless the output is null, a place for the style sheet.
So a line that scans a project ends exactly when every pattern can be searched for, and one that generates its
style sheet exactly when there is a place for it and every pattern that is tried means something.
-/

namespace UtilityCss

theorem Session.Logged.holdsFolder {before after : Session} (h : Logged before after) (path : Path) :
    after.space.holdsFolder path = before.space.holdsFolder path := by
  have hkind := h.files.look path
  rw [Workspace.holdsFolder, Workspace.holdsFolder]
  generalize after.space.look path = new at hkind ⊢
  generalize before.space.look path = old at hkind ⊢
  rcases new with _ | _ | _ <;> rcases old with _ | _ | _ <;> simp_all [Except.map]

namespace CommandLine

/-- The configuration that a workspace has is found, can be loaded, and there is nothing to complain about. -/
structure Accepts (reader : Yaml.Reader) (space : Workspace) (config : Entries) : Prop where
  found : ∃ path, Config.find? space = some path ∧ (Config.loadAt reader space path).result = .ok config
  valid : Config.complaints config = .ok []

section Passes

variable {events : List (Binary64 × Event)} {session configured : Session} {reader : Yaml.Reader} {space : Workspace}
  {config : Entries} {options : Options} {dir : String}

theorem Accepts.nodup (hkeyed : reader.Keyed) (h : Accepts reader space config) : (config.map Prod.fst).Nodup := by
  obtain ⟨path, -, hload⟩ := h.found
  exact Config.nodup_keys_of_loadAt hkeyed hload

theorem Accepts.passConfig (h : Accepts session.reader session.space config) :
    ∃ after, session.Logged after ∧ passConfig none session = .ok (some config) after := by
  obtain ⟨path, hfind, hload⟩ := h.found
  obtain ⟨warned, hwarned, hread⟩ := readConfig_of_ok hload
  have hpath : configPath? none session.space = some path := hfind
  refine ⟨warned.note ("Using config " ++ path.text), hwarned.trans (Session.logged_emit _ _), ?_⟩
  simp only [CommandLine.passConfig, usableConfig, Task.bind_apply, Task.ask_apply, hpath, hread, checked,
    h.valid]
  rfl

theorem Accepts.plan (h : Accepts session.reader session.space config)
    (hoptions : (Settings.ofConfig? config).bind Settings.options? = some options)
    (hfolder : session.space.holdsFolder (Path.ofText dir) = .ok true) :
    ∃ after, session.Logged after ∧ plan { project := dir } session =
      .ok (some { project := Path.ofText dir, config, options }) after := by
  obtain ⟨after, hafter, hconfig⟩ := h.passConfig
  refine ⟨after, hafter, ?_⟩
  have hlater : after.space.holdsFolder (Path.ofText dir) = .ok true := (hafter.holdsFolder _).trans hfolder
  simp only [CommandLine.plan, Task.bind_apply, hconfig, hoptions, needed, Task.pure_apply, Task.explain_apply,
    Task.look_apply, hlater]
  rfl

theorem look_of_holdsFolder {path : Path} (h : space.holdsFolder path = .ok true) :
    space.look path = .ok (some .folder) := by
  obtain ⟨found, hlook, hfolder⟩ := map_eq_ok.1 h
  cases found with
  | none => cases hfolder
  | some node => rw [hlook, Node.eq_folder_of_isFolder hfolder]

/-! ### Scanning -/

theorem ends_scan_iff (hconfigure : session.configure none none false = .ok configured)
    (hdir : dir.toList.head? ≠ some '-') (haccepts : Accepts configured.reader configured.space config)
    (hoptions : (Settings.ofConfig? config).bind Settings.options? = some options)
    (hfolder : configured.space.holdsFolder (Path.ofText dir) = .ok true) :
    Ends ["scan", dir] events session ↔
      ∃ files, Pass.sources configured.space (Path.ofText dir) options = .ok files := by
  obtain ⟨planned, hplanned, hplan⟩ := haccepts.plan hoptions hfolder
  have hstart := start_of_request hconfigure (parse_scan hdir) rfl
  simp only [perform, Task.bind_apply, hplan, runScan, Task.say_apply, Task.explain_apply] at hstart
  have hsaid : configured.Logged (planned.say (scanTitle (Path.ofText dir))) :=
    hplanned.trans (Session.logged_emit _ _)
  rw [← hsaid.sources (Path.ofText dir) options]
  cases hsources : Pass.sources (planned.say (scanTitle (Path.ofText dir))).space (Path.ofText dir) options with
  | ok files =>
    obtain ⟨classes, after, hclasses⟩ := Pass.classify_of_sources hsources
    rw [hclasses] at hstart
    exact ⟨fun _ => ⟨files, rfl⟩, fun _ => ends_of_done hstart (Nat.zero_le 1)⟩
  | error failure =>
    rw [Pass.classify_of_error hsources] at hstart
    exact ⟨fun h => absurd h (not_ends_of_error hstart), fun ⟨_, hfiles⟩ => nomatch hfiles⟩

/-! ### Generating -/

theorem output?_of_text {project : Path} {name : String}
    (h : (Config.withDefaults config).get? "output" = some (.text name)) :
    Plan.output? { project, config, options } none = some (project.join (Path.ofText name)) := by
  rw [Plan.output?, h]
  rfl

theorem not_ends_generate (hconfigure : session.configure none none false = .ok configured)
    (hdir : dir.toList.head? ≠ some '-') (haccepts : Accepts configured.reader configured.space config)
    (hoptions : (Settings.ofConfig? config).bind Settings.options? = some options)
    (hfolder : configured.space.holdsFolder (Path.ofText dir) = .ok true)
    (hnull : (Config.withDefaults config).get? "output" = some .null) :
    ¬Ends ["generate", dir] events session := by
  obtain ⟨planned, hplanned, hplan⟩ := haccepts.plan hoptions hfolder
  have hstart := start_of_request hconfigure (parse_generate hdir) rfl
  simp only [perform, Task.bind_apply, hplan, Plan.output?, hnull] at hstart
  exact not_ends_of_error hstart

theorem ends_generate_iff (hconfigure : session.configure none none false = .ok configured)
    (htree : configured.space.tree.WellFormed) (hdir : dir.toList.head? ≠ some '-')
    (haccepts : Accepts configured.reader configured.space config)
    (hoptions : (Settings.ofConfig? config).bind Settings.options? = some options)
    (hfolder : configured.space.holdsFolder (Path.ofText dir) = .ok true) {name : String}
    (hname : (Config.withDefaults config).get? "output" = some (.text name)) (hzero : '\x00' ∉ name.toList)
    (hbase : ∀ base, options.baseCss = some base → '\x00' ∉ base.toList) :
    Ends ["generate", dir] events session ↔
      ∀ pattern, Pass.Tries configured.space (Path.ofText dir) options pattern → Glob.Meaningful pattern := by
  obtain ⟨planned, hplanned, hplan⟩ := haccepts.plan hoptions hfolder
  have hroot := look_of_holdsFolder hfolder
  have hstart := start_of_request hconfigure (parse_generate hdir) rfl
  simp only [perform, Task.bind_apply, hplan, output?_of_text hname, needed, Task.pure_apply,
    Bool.false_eq_true, if_false, Task.map_apply, runGenerate, Task.say_apply, Task.explain_apply] at hstart
  have hsaid : configured.Logged (planned.say (generateTitle (Path.ofText dir))) :=
    hplanned.trans (Session.logged_emit _ _)
  rw [Pass.forall_meaningful_iff htree hroot, ← hsaid.sources (Path.ofText dir) options]
  constructor
  · intro hends failure hfailure
    by_contra hunreported
    rw [Pass.generate_of_sources_error hfailure, if_neg hunreported] at hstart
    exact not_ends_of_error hstart hends
  · intro hreported
    have houtput : ((Path.ofText dir).join (Path.ofText name)).hasZeroByte = false :=
      Path.hasZeroByte_join (Workspace.noZero_of_look hroot) (Path.hasZeroByte_ofText hzero)
    have hnamed : ∀ path, Pass.namedBase? options = some path → path.hasZeroByte = false := by
      intro path hpath
      obtain ⟨base, hfilter, rfl⟩ := Option.map_eq_some_iff.1 hpath
      exact Path.hasZeroByte_ofText (hbase base (Option.filter_eq_some_iff.1 hfilter).1)
    obtain ⟨report, after, hreport⟩ := Pass.exists_generate hnamed houtput hreported
    rw [hreport] at hstart
    refine ends_of_done hstart ?_
    rw [codeOf]
    split <;> decide

end Passes

def besideProject (text : String) : Session :=
  { space := { tree := { nodes := [
    (["vibecss.yaml"], .file text.toUTF8),
    (["p"], .folder),
    (["p", "a.html"], .file "<p class=\"vibe-flex\">".toUTF8)] } } }

theorem configure_besideProject (text : String) : ∃ configured,
    (besideProject text).configure none none false = .ok configured ∧
      configured.space = (besideProject text).space ∧ configured.reader = Value.ofYaml := ⟨_, rfl, rfl, rfl⟩

theorem accepts_besideProject {text : String} {config : Entries}
    (hread : Config.readFile Value.ofYaml (besideProject text).space (Path.ofText Config.fileName) = .ok config)
    (hnames : Config.references config = .ok []) (hsize : text.toUTF8.size ≤ Config.maxSize)
    (hwritten : Config.assembled config [] = .ok config) (hvalid : Config.complaints config = .ok []) :
    Accepts Value.ofYaml (besideProject text).space config := by
  refine ⟨⟨Path.ofText Config.fileName, rfl, ?_⟩, hvalid⟩
  have hlook : (besideProject text).space.look (Path.ofText Config.fileName) =
      .ok (some (.file text.toUTF8)) := rfl
  have hbytes : Config.size (besideProject text).space (Path.ofText Config.fileName) = text.toUTF8.size := rfl
  have hload := congrArg Config.Loaded.result
    (Config.loadFile_of_references List.not_mem_nil hread hnames)
  rw [Config.loadAt, hlook]
  simp only [hbytes, if_neg (Nat.not_lt.2 hsize), hload]
  exact hwritten

end CommandLine

end UtilityCss
