import UtilityCss.Proofs.PassFiles
import UtilityCss.Proofs.StableScans

/-!
# How passes end

A scan of a folder gives classes exactly when every pattern can be searched for. A pass that generates a style
sheet reports whatever else goes wrong, as long as no zero byte stands in the paths that it is given.
-/

namespace UtilityCss

/-! ### Patterns that mean something -/

namespace Glob

/-- A pattern for a search does not begin at the root of all files, and a double star in it is a whole name. -/
def Meaningful (pattern : String) : Prop :=
  (Path.ofText pattern).isAbsolute = false ∧
    ∀ part ∈ (Path.ofText pattern).parts, part = "**" ∨ Text.mentions ['*', '*'] part.toList = false

instance (pattern : String) : Decidable (Meaningful pattern) :=
  inferInstanceAs (Decidable ((Path.ofText pattern).isAbsolute = false ∧
    ∀ part ∈ (Path.ofText pattern).parts, part = "**" ∨ Text.mentions ['*', '*'] part.toList = false))

theorem exists_partOf_iff {part : String} : (∃ found, partOf part = .ok found) ↔
    part = "**" ∨ Text.mentions ['*', '*'] part.toList = false := by
  rw [partOf]
  split
  · rename_i hstars
    exact ⟨fun _ => .inl hstars, fun _ => ⟨_, rfl⟩⟩
  · rename_i hstars
    cases hmentions : Text.mentions ['*', '*'] part.toList with
    | true => simp [hstars]
    | false =>
      refine ⟨fun _ => .inr rfl, fun _ => ?_⟩
      rw [if_neg Bool.false_ne_true]
      split
      · exact ⟨_, rfl⟩
      · exact ⟨_, rfl⟩

theorem exists_partsOf_iff {pattern : String} :
    (∃ parts, partsOf pattern = .ok parts) ↔ Meaningful pattern := by
  have hparts : (∃ parts, (Path.ofText pattern).parts.mapM partOf = .ok parts) ↔
      ∀ part ∈ (Path.ofText pattern).parts, part = "**" ∨ Text.mentions ['*', '*'] part.toList = false :=
    exists_mapM_eq_ok.trans (forall₂_congr fun _ _ => exists_partOf_iff)
  rw [Meaningful, ← hparts]
  cases habsolute : (Path.ofText pattern).isAbsolute with
  | true => simp [partsOf, habsolute, bind, Except.bind, throw, throwThe, MonadExceptOf.throw]
  | false =>
    rw [partsOf, habsolute]
    simp only [Bool.false_eq_true, if_false, true_and]
    constructor
    · rintro ⟨_, h⟩
      obtain ⟨parts, hparts, -⟩ := bind_eq_ok.1 h
      exact ⟨parts, hparts⟩
    · rintro ⟨parts, hparts⟩
      exact ⟨_, bind_eq_ok.2 ⟨parts, hparts, rfl⟩⟩

end Glob

/-! ### Paths without zero bytes -/

namespace Path

theorem hasZeroByte_eq_false {path : Path} :
    path.hasZeroByte = false ↔ ∀ part ∈ path.parts, '\x00' ∉ part.toList := by
  simp [hasZeroByte]

theorem hasZeroByte_mono {path other : Path} (h : path.hasZeroByte = false)
    (hparts : other.parts ⊆ path.parts) : other.hasZeroByte = false :=
  hasZeroByte_eq_false.2 fun part hpart => hasZeroByte_eq_false.1 h part (hparts hpart)

theorem hasZeroByte_ofText {text : String} (h : '\x00' ∉ text.toList) :
    (ofText text).hasZeroByte = false := by
  refine hasZeroByte_eq_false.2 fun part hpart hzero => h ?_
  obtain ⟨hmem, -⟩ := List.mem_filter.1 hpart
  obtain ⟨piece, hpiece, rfl⟩ := List.mem_map.1 hmem
  rw [String.toList_ofList] at hzero
  exact (Text.mem_of_mem_pieces hpiece hzero).1

theorem hasZeroByte_join {base path : Path} (hbase : base.hasZeroByte = false)
    (hpath : path.hasZeroByte = false) : (base.join path).hasZeroByte = false := by
  rw [join]
  split
  · exact hpath
  · exact hasZeroByte_below hbase (hasZeroByte_eq_false.1 hpath)

end Path

theorem FileTree.walk_ne_zeroByte (tree : FileTree) (here : Location) (parts : List String) :
    tree.walk here parts ≠ .error .zeroByte := by
  induction parts generalizing here with
  | nil => nofun
  | cons part parts ih =>
    intro h
    rw [walk, List.foldlM_cons] at h
    rcases bind_eq_error.1 h with hstep | ⟨next, -, h⟩
    · rw [step] at hstep
      split at hstep
      · cases hstep
      · cases hstep
      · split at hstep <;> cases hstep
    · exact ih next h

namespace Workspace

variable {space after : Workspace} {path : Path} {bytes : ByteArray} {error : FileError}

theorem ne_zeroByte_of_locate (hpath : path.hasZeroByte = false) (h : space.locate path = .error error) :
    error.fault ≠ .zeroByte := by
  rw [locate] at h
  rcases Path.fault?_cases hpath with hnone | hlong
  · rw [hnone] at h
    simp only at h
    cases hwalk : space.tree.walk (space.start path) path.parts with
    | ok location =>
      rw [hwalk] at h
      cases h
    | error fault =>
      rw [hwalk] at h
      obtain rfl := Except.error.inj h
      rintro rfl
      exact FileTree.walk_ne_zeroByte _ _ _ hwalk
  · rw [hlong] at h
    obtain rfl := Except.error.inj h
    exact FileFault.noConfusion

theorem noZero_of_look {node : Node} (h : space.look path = .ok (some node)) : path.hasZeroByte = false := by
  obtain ⟨location, hlocate, -⟩ := locate_of_look h
  exact Path.hasZeroByte_eq_false.2 fun part => Path.noZero_of_fault? (fault?_of_locate hlocate)

theorem ne_zeroByte_of_read (hpath : path.hasZeroByte = false) (h : space.read path = .error error) :
    error.fault ≠ .zeroByte := by
  rw [read] at h
  rcases bind_eq_error.1 h with hlocate | ⟨location, -, h⟩
  · exact ne_zeroByte_of_locate hpath hlocate
  · split at h
    · cases h
    · obtain rfl := Except.error.inj h
      exact FileFault.noConfusion
    · obtain rfl := Except.error.inj h
      exact FileFault.noConfusion

theorem ne_zeroByte_of_write (hpath : path.hasZeroByte = false) (h : space.write path bytes = .error error) :
    error.fault ≠ .zeroByte := by
  rw [write] at h
  rcases bind_eq_error.1 h with hlocate | ⟨location, -, h⟩
  · exact ne_zeroByte_of_locate hpath hlocate
  · split at h
    · obtain rfl := Except.error.inj h
      exact FileFault.noConfusion
    · cases h

theorem ne_zeroByte_of_ensureFolder (hpath : path.hasZeroByte = false)
    (h : space.ensureFolder path = (after, some error)) : error.fault ≠ .zeroByte := by
  rw [ensureFolder] at h
  split at h
  · cases h
  · rename_i other hmake
    split at h
    · cases h
    · obtain ⟨-, hsome⟩ := Prod.mk.inj h
      obtain rfl := Option.some.inj hsome
      rw [makeFolder] at hmake
      rcases bind_eq_error.1 hmake with hlocate | ⟨location, -, hmake⟩
      · exact ne_zeroByte_of_locate hpath hlocate
      · split at hmake
        · obtain rfl := Except.error.inj hmake
          exact FileFault.noConfusion
        · cases hmake

theorem ne_zeroByte_of_makeFoldersTo (hpath : path.hasZeroByte = false) {depth : Nat}
    (h : space.makeFoldersTo path depth = (after, some error)) : error.fault ≠ .zeroByte := by
  have hshorter (depth : Nat) : { path with parts := path.parts.take depth }.hasZeroByte = false :=
    Path.hasZeroByte_mono hpath (List.take_subset _ _)
  induction depth generalizing after error with
  | zero => exact ne_zeroByte_of_ensureFolder (hshorter 0) h
  | succ depth ih =>
    rw [makeFoldersTo] at h
    split at h
    · split at h
      · rename_i hto
        obtain ⟨rfl, hsome⟩ := Prod.mk.inj h
        exact ih (hsome ▸ hto)
      · exact ne_zeroByte_of_ensureFolder (hshorter _) h
    · exact ne_zeroByte_of_ensureFolder (hshorter _) h

theorem ne_zeroByte_of_save (hpath : path.hasZeroByte = false)
    (h : space.save path bytes = (after, some error)) : error.fault ≠ .zeroByte := by
  rw [save, makeFolders] at h
  split at h
  · rename_i hmade
    obtain ⟨rfl, hsome⟩ := Prod.mk.inj h
    exact ne_zeroByte_of_makeFoldersTo (Path.hasZeroByte_mono hpath (List.dropLast_subset _)) (hsome ▸ hmade)
  · split at h
    · cases h
    · rename_i hwrite
      obtain ⟨-, hsome⟩ := Prod.mk.inj h
      exact ne_zeroByte_of_write hpath (Option.some.inj hsome ▸ hwrite)

end Workspace

namespace Pass

variable {space : Workspace} {session : Session} {root output : Path} {options : Options}
  {exclusions : List String} {pattern : String} {failure : Failure}

/-! ### Scans -/

theorem exists_scannedBy_iff (htree : space.tree.WellFormed)
    (hroot : space.look root = .ok (some .folder)) :
    (∃ kept, scannedBy space root exclusions pattern = .ok kept) ↔
      Glob.Meaningful pattern ∧ ∀ names, scannedBy space root exclusions pattern ≠
        .error (.file { fault := .tooLong, path := root.below names }) := by
  rw [← Glob.exists_partsOf_iff]
  constructor
  · rintro ⟨kept, hkept⟩
    obtain ⟨parts, -, hparts, -⟩ := scannedBy_eq_ok hkept
    refine ⟨⟨parts, hparts⟩, fun names h => ?_⟩
    rw [hkept] at h
    cases h
  · rintro ⟨⟨parts, hparts⟩, hshort⟩
    cases hscanned : scannedBy space root exclusions pattern with
    | ok kept => exact ⟨kept, rfl⟩
    | error failure =>
      rcases scannedBy_eq_error htree hroot hscanned with ⟨fault, hfault, -⟩ | ⟨names, rfl⟩
      · rw [hparts] at hfault
        cases hfault
      · exact absurd hscanned (hshort names)

/-- A pattern that is searched for, after those before it. -/
def Tries (space : Workspace) (root : Path) (options : Options) (pattern : String) : Prop :=
  ∃ before after, options.patterns = before ++ pattern :: after ∧
    ∀ other ∈ before, ∃ kept, scannedBy space root options.excludeDirs other = .ok kept

theorem forall_meaningful_iff (htree : space.tree.WellFormed)
    (hroot : space.look root = .ok (some .folder)) :
    (∀ pattern, Tries space root options pattern → Glob.Meaningful pattern) ↔
      ∀ failure, sources space root options = .error failure → failure.isReported = true := by
  constructor
  · intro hmeaningful failure hfailure
    obtain ⟨before, pattern, after, hpatterns, hbefore, hscanned⟩ := (sources_eq_error hroot).1 hfailure
    rcases scannedBy_eq_error htree hroot hscanned with ⟨fault, hfault, -⟩ | ⟨names, rfl⟩
    · obtain ⟨parts, hparts⟩ := Glob.exists_partsOf_iff.2 (hmeaningful pattern ⟨before, after, hpatterns, hbefore⟩)
      rw [hparts] at hfault
      cases hfault
    · rfl
  · rintro hreported pattern ⟨before, after, hpatterns, hbefore⟩
    rw [← Glob.exists_partsOf_iff]
    cases hparts : Glob.partsOf pattern with
    | ok parts => exact ⟨parts, rfl⟩
    | error fault =>
      have hfails := (sources_eq_error hroot).2
        ⟨before, pattern, after, hpatterns, hbefore, scannedBy_of_partsOf_error hparts⟩
      exact absurd (hreported _ hfails) Bool.false_ne_true

theorem exists_projectClasses {files : List Path} (h : sources space root options = .ok files) :
    ∃ found, projectClasses space root options = .ok (found, files.length) := by
  have hread : ∀ file ∈ files, ∃ classes, fileClasses space options.scanner file = .ok classes := by
    intro file hfile
    obtain ⟨location, bytes, hlocate, hnode⟩ := exists_file_of_mem_sources h hfile
    rw [fileClasses, Workspace.readLenient, Workspace.read_eq_ok.2 ⟨location, hlocate, hnode⟩]
    exact ⟨_, rfl⟩
  obtain ⟨classes, hclasses⟩ := exists_mapM_eq_ok.2 hread
  refine ⟨Text.orderedSet classes.flatten, bind_eq_ok.2 ⟨files, h, ?_⟩⟩
  rw [filesClasses, hclasses]
  rfl

theorem classify_of_sources {files : List Path} (h : sources session.space root options = .ok files) :
    ∃ classes after, classify root options session = .ok classes after := by
  obtain ⟨found, hfound⟩ := exists_projectClasses h
  simp only [classify, Task.bind_apply, scan_apply, hfound]
  exact ⟨_, _, rfl⟩

theorem classify_of_error (h : sources session.space root options = .error failure) :
    classify root options session = .error failure session := by
  simp only [classify, Task.bind_apply, scan_apply, projectClasses_of_error h]

/-! ### Generating -/

theorem isReported_of_readBase {path : Path} (hpath : path.hasZeroByte = false)
    (h : readBase space path = .error failure) : failure.isReported = true := by
  rw [readBase] at h
  split at h
  · rename_i error hread
    obtain rfl := Except.error.inj h
    rcases bind_eq_error.1 hread with hread | ⟨_, -, hread⟩
    · exact decide_eq_true (Workspace.ne_zeroByte_of_read hpath hread)
    · cases hread
  · obtain rfl := Except.error.inj h
    rfl
  · cases h

theorem isReported_of_baseOf (hbase : ∀ path, namedBase? options = some path → path.hasZeroByte = false)
    (h : baseOf space root options = .error failure) : failure.isReported = true := by
  rw [baseOf] at h
  split at h
  · rw [baseText] at h
    cases hnamed : namedBase? options with
    | some path =>
      simp only [baseFile?, hnamed] at h
      exact isReported_of_readBase (hbase path hnamed) h
    | none =>
      simp only [baseFile?, hnamed, keptBase?] at h
      split at h
      · rename_i error hkept
        obtain rfl := Except.error.inj h
        rw [Workspace.look_eq_error (map_eq_error.1 hkept)]
        rfl
      · rename_i path hkept
        obtain ⟨node, hlook, hpath⟩ := map_eq_ok.1 hkept
        split at hpath
        · rename_i hfile
          obtain rfl := Option.some.inj hpath
          cases node with
          | none => cases hfile
          | some node => exact isReported_of_readBase (Workspace.noZero_of_look hlook) h
        · cases hpath
      · cases h
  · cases h

theorem exists_generate (hbase : ∀ path, namedBase? options = some path → path.hasZeroByte = false)
    (houtput : output.hasZeroByte = false)
    (hsources : ∀ failure, sources session.space root options = .error failure → failure.isReported = true) :
    ∃ report after, generate root output options session = .ok report after := by
  have hreports {failure : Failure} {after : Session}
      (hwrite : write root output options session = .error failure after)
      (hreported : failure.isReported = true) :
      ∃ report after, generate root output options session = .ok report after := by
    rw [generate_of_error hwrite, if_pos hreported]
    exact ⟨_, _, rfl⟩
  cases h : sources session.space root options with
  | error failure =>
    rw [generate_of_sources_error h output, if_pos (hsources failure h)]
    exact ⟨_, _, rfl⟩
  | ok files =>
    obtain ⟨found, hfound⟩ := exists_projectClasses h
    obtain ⟨noted, -, hwrite⟩ := write_of_classes hfound output
    cases hread : baseOf noted.space root options with
    | error failure =>
      rw [hread] at hwrite
      exact hreports hwrite (isReported_of_baseOf hbase hread)
    | ok base =>
      cases hsave : noted.space.save output (sheetText options found base).toUTF8 with
      | mk saved error =>
        simp only [hread, hsave] at hwrite
        cases error with
        | none => exact ⟨_, _, generate_of_ok hwrite⟩
        | some error =>
          exact hreports hwrite (decide_eq_true (Workspace.ne_zeroByte_of_save houtput hsave))

end Pass

end UtilityCss
