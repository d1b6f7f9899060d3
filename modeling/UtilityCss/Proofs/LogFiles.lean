import UtilityCss.Session
import UtilityCss.Proofs.TreeChanges

/-!
# What records change

A record goes to the terminal and to the ends of the log files. No other file changes, no file is new, and
whatever leads through folders leads there as before.
-/

namespace UtilityCss

namespace FileTree

/-- A tree and a later one have the same files, and those that are not at the given places with the same
bytes. -/
structure Spares (places : List Location) (tree later : FileTree) : Prop where
  same : ∀ location, location ∉ places → later.bytes? location = tree.bytes? location
  noneNew : ∀ location, (later.bytes? location).isSome = (tree.bytes? location).isSome

theorem Spares.trans {places : List Location} {tree middle later : FileTree}
    (first : Spares places tree middle) (second : Spares places middle later) :
    Spares places tree later where
  same location h := (second.same location h).trans (first.same location h)
  noneNew location := (second.noneNew location).trans (first.noneNew location)

def shape (tree : FileTree) : List (Location × Bool) :=
  tree.nodes.map fun (location, node) => (location, node.isFolder)

theorem shape_put {tree : FileTree} {location : Location} {old node : Node}
    (hold : tree.nodes.lookup location = some old) (hkind : node.isFolder = old.isFolder) :
    (tree.put location node).shape = tree.shape := by
  simp only [shape, put]
  generalize tree.nodes = nodes at hold ⊢
  induction nodes with
  | nil => cases hold
  | cons entry rest ih =>
    by_cases hentry : entry.1 = location
    · subst hentry
      obtain rfl := Option.some.inj (List.lookup_cons_self.symm.trans hold)
      rw [putNode, if_pos rfl, List.map_cons, List.map_cons, hkind]
    · rw [List.lookup_cons, beq_eq_false_iff_ne.mpr (Ne.symm hentry)] at hold
      rw [putNode, if_neg hentry, List.map_cons, List.map_cons, ih hold]

end FileTree

namespace Workspace

/-- The workspaces differ at most in the bytes of the files at the given places. -/
structure DiffersAt (places : List Location) (before after : Workspace) : Prop where
  here : after.here = before.here
  elsewhere : ∀ location, location ∉ places →
    after.tree.node? location = before.tree.node? location
  folders : ∀ location, (after.tree.node? location).map Node.isFolder =
    (before.tree.node? location).map Node.isFolder

theorem GainsFolders.spares {before after : Workspace} (h : GainsFolders before after)
    (places : List Location) : before.tree.Spares places after.tree where
  same location _ := h.bytes? location
  noneNew location := congrArg Option.isSome (h.bytes? location)

namespace DiffersAt

variable {places : List Location} {before middle after : Workspace}

theorem refl (places : List Location) (space : Workspace) : DiffersAt places space space :=
  ⟨rfl, fun _ _ => rfl, fun _ => rfl⟩

theorem trans (first : DiffersAt places before middle) (second : DiffersAt places middle after) :
    DiffersAt places before after where
  here := second.here.trans first.here
  elsewhere location h := (second.elsewhere location h).trans (first.elsewhere location h)
  folders location := (second.folders location).trans (first.folders location)

theorem kinds (h : DiffersAt places before after) (location : Location) :
    (before.tree.node? location = none ∧ after.tree.node? location = none) ∨
    (before.tree.node? location = some .folder ∧ after.tree.node? location = some .folder) ∨
    ∃ old new, before.tree.node? location = some (.file old) ∧
      after.tree.node? location = some (.file new) := by
  have hfolder := h.folders location
  cases hold : before.tree.node? location with
  | none =>
    rw [hold] at hfolder
    exact .inl ⟨rfl, Option.map_eq_none_iff.1 hfolder⟩
  | some node =>
    rw [hold] at hfolder
    obtain ⟨other, hnew, hkind⟩ := Option.map_eq_some_iff.1 hfolder
    rw [hnew]
    cases node with
    | folder =>
      cases other with
      | folder => exact .inr (.inl ⟨rfl, rfl⟩)
      | file _ => cases hkind
    | file old =>
      cases other with
      | folder => cases hkind
      | file new => exact .inr (.inr ⟨old, new, rfl, rfl⟩)

theorem spares (h : DiffersAt places before after) : before.tree.Spares places after.tree where
  same location hplace := FileTree.bytes?_congr (h.elsewhere location hplace)
  noneNew location := by
    rcases h.kinds location with ⟨hold, hnew⟩ | ⟨hold, hnew⟩ | ⟨old, new, hold, hnew⟩ <;>
      simp only [FileTree.bytes?, hold, hnew, Option.isSome]

theorem resolve (h : DiffersAt places before after) (path : Path) :
    after.resolve path = before.resolve path := by
  rw [Workspace.resolve, Workspace.resolve, h.here]

theorem step (h : DiffersAt places before after) (here : Location) (part : String) :
    after.tree.step here part = before.tree.step here part := by
  rcases h.kinds here with ⟨hold, hnew⟩ | ⟨hold, hnew⟩ | ⟨old, new, hold, hnew⟩ <;>
    simp only [FileTree.step, hold, hnew]

theorem locate (h : DiffersAt places before after) (path : Path) :
    after.locate path = before.locate path := by
  have hstep : after.tree.step = before.tree.step :=
    funext fun here => funext fun part => h.step here part
  simp only [Workspace.locate, FileTree.walk, start, hstep, h.here]

theorem look (h : DiffersAt places before after) (path : Path) :
    (after.look path).map (Option.map Node.isFolder) =
      (before.look path).map (Option.map Node.isFolder) := by
  rw [Workspace.look, Workspace.look, h.locate]
  cases before.locate path with
  | ok location => exact congrArg Except.ok (h.folders location)
  | error error => simp only

theorem read (h : DiffersAt places before after) {path : Path}
    (hpath : before.resolve path ∉ places) : after.read path = before.read path := by
  rw [Workspace.read, Workspace.read, h.locate]
  cases hlocate : before.locate path with
  | error error => rfl
  | ok location =>
    have hlocation := locate_eq_resolve hlocate
    simp only [bind, Except.bind, h.elsewhere location (hlocation ▸ hpath)]

theorem isFolder (h : DiffersAt places before after) (path : Path) :
    after.isFolder path = before.isFolder path := by
  simp only [Workspace.isFolder, Workspace.node?, Workspace.look, h.locate]
  cases before.locate path with
  | error error => rfl
  | ok location =>
    rcases h.kinds location with ⟨hold, hnew⟩ | ⟨hold, hnew⟩ | ⟨old, new, hold, hnew⟩ <;>
      simp only [hold, hnew, Option.any_none, Option.any_some, Node.isFolder]

theorem put (h : DiffersAt places before after) {location : Location} (hlocation : location ≠ [])
    (node : Node) :
    DiffersAt places { before with tree := before.tree.put location node }
      { after with tree := after.tree.put location node } where
  here := h.here
  elsewhere other hother := by
    rw [FileTree.node?_put hlocation, FileTree.node?_put hlocation, h.elsewhere other hother]
  folders other := by
    rw [FileTree.node?_put hlocation, FileTree.node?_put hlocation]
    split
    · rfl
    · exact h.folders other

def EndsAlike (places : List Location) (one two : Workspace × Option FileError) : Prop :=
  DiffersAt places one.1 two.1 ∧ two.2 = one.2

theorem makeFolder (h : DiffersAt places before after) (path : Path) :
    (∃ made remade, before.makeFolder path = .ok made ∧ after.makeFolder path = .ok remade ∧
      DiffersAt places made remade) ∨
    ∃ error, before.makeFolder path = .error error ∧ after.makeFolder path = .error error := by
  simp only [Workspace.makeFolder, h.locate]
  cases before.locate path with
  | error error => exact .inr ⟨error, rfl, rfl⟩
  | ok location =>
    rcases h.kinds location with ⟨hold, hnew⟩ | ⟨hold, hnew⟩ | ⟨old, new, hold, hnew⟩
    · have hlocation : location ≠ [] := by
        rintro rfl
        cases hold
      refine .inl ⟨_, _, ?_, ?_, h.put hlocation .folder⟩
      · simp [bind, Except.bind, hold]
      · simp [bind, Except.bind, hnew]
    · refine .inr ⟨{ fault := .taken, path }, ?_, ?_⟩
      · simp [bind, Except.bind, hold]
      · simp [bind, Except.bind, hnew]
    · refine .inr ⟨{ fault := .taken, path }, ?_, ?_⟩
      · simp [bind, Except.bind, hold]
      · simp [bind, Except.bind, hnew]

theorem ensureFolder (h : DiffersAt places before after) (path : Path) :
    EndsAlike places (before.ensureFolder path) (after.ensureFolder path) := by
  rw [Workspace.ensureFolder, Workspace.ensureFolder]
  rcases h.makeFolder path with ⟨made, remade, hmade, hremade, hdiffers⟩ | ⟨error, hmade, hremade⟩
  · rw [hmade, hremade]
    exact ⟨hdiffers, rfl⟩
  · rw [hmade, hremade]
    exact ⟨h, by simp only [h.isFolder]⟩

theorem makeFoldersTo (h : DiffersAt places before after) (path : Path) (depth : Nat) :
    EndsAlike places (before.makeFoldersTo path depth) (after.makeFoldersTo path depth) := by
  induction depth with
  | zero => exact h.ensureFolder _
  | succ depth ih =>
    have hensure := h.ensureFolder { path with parts := path.parts.take (depth + 1) }
    simp only [Workspace.makeFoldersTo]
    rcases h.makeFolder { path with parts := path.parts.take (depth + 1) } with
      ⟨made, remade, hmade, hremade, -⟩ | ⟨⟨fault, place⟩, hmade, hremade⟩
    · simp only [hmade, hremade]
      exact hensure
    · simp only [hmade, hremade]
      cases fault with
      | missing =>
        simp only
        obtain ⟨hdiffers, herror⟩ := ih
        generalize before.makeFoldersTo path depth = one at hdiffers herror ⊢
        generalize after.makeFoldersTo path depth = two at hdiffers herror ⊢
        obtain ⟨made, error⟩ := one
        obtain ⟨remade, reerror⟩ := two
        obtain rfl : reerror = error := herror
        cases reerror with
        | some error => exact ⟨hdiffers, rfl⟩
        | none => exact hdiffers.ensureFolder _
      | _ => exact hensure

theorem write (h : DiffersAt places before after) (path : Path) (bytes : ByteArray) :
    (∃ written rewritten, before.write path bytes = .ok written ∧ after.write path bytes = .ok rewritten) ∨
    ∃ error, before.write path bytes = .error error ∧ after.write path bytes = .error error := by
  simp only [Workspace.write, h.locate]
  cases before.locate path with
  | error error => exact .inr ⟨error, rfl, rfl⟩
  | ok location =>
    simp only [bind, Except.bind]
    rcases h.kinds location with ⟨hold, hnew⟩ | ⟨hold, hnew⟩ | ⟨old, new, hold, hnew⟩
    · simp only [hold, hnew]
      exact .inl ⟨_, _, rfl, rfl⟩
    · simp only [hold, hnew]
      exact .inr ⟨_, rfl, rfl⟩
    · simp only [hold, hnew]
      exact .inl ⟨_, _, rfl, rfl⟩

theorem save (h : DiffersAt places before after) (path : Path) (bytes : ByteArray) :
    (after.save path bytes).2 = (before.save path bytes).2 := by
  obtain ⟨hdiffers, herror⟩ := h.makeFoldersTo path.parent path.parent.parts.length
  simp only [Workspace.save, makeFolders]
  generalize before.makeFoldersTo path.parent path.parent.parts.length = one at hdiffers herror ⊢
  generalize after.makeFoldersTo path.parent path.parent.parts.length = two at hdiffers herror ⊢
  obtain ⟨made, error⟩ := one
  obtain ⟨remade, reerror⟩ := two
  obtain rfl : reerror = error := herror
  cases reerror with
  | some error => rfl
  | none =>
    simp only
    rcases hdiffers.write path bytes with
        ⟨written, rewritten, hwrite, hrewrite⟩ | ⟨error, hwrite, hrewrite⟩ <;>
      simp only [hwrite, hrewrite]

end DiffersAt

theorem differsAt_appendLine (space : Workspace) (path : Path) (line : Option String) :
    DiffersAt [path.parts] space (Log.appendLine space path line) := by
  rw [Log.appendLine]
  split
  · rename_i bytes hnode
    have hparts : path.parts ≠ [] := by
      intro hnil
      rw [hnil] at hnode
      cases hnode
    refine ⟨rfl, fun location hlocation => ?_, fun location => ?_⟩
    · rw [FileTree.node?_put hparts, if_neg (by simpa using hlocation)]
    · rw [FileTree.node?_put hparts]
      split
      · rename_i hlocation
        rw [hlocation, hnode]
        rfl
      · rfl
  · exact .refl _ space

theorem shape_appendLine (space : Workspace) (path : Path) (line : Option String) :
    (Log.appendLine space path line).tree.shape = space.tree.shape := by
  rw [Log.appendLine]
  split
  · rename_i bytes hnode
    rw [FileTree.node?] at hnode
    split at hnode
    · cases hnode
    · exact FileTree.shape_put hnode rfl
  · rfl

theorem DiffersAt.mono {places more : List Location} {before after : Workspace}
    (h : DiffersAt places before after) (hsub : places ⊆ more) : DiffersAt more before after where
  here := h.here
  elsewhere location hlocation := h.elsewhere location fun hplace => hlocation (hsub hplace)
  folders := h.folders

end Workspace

def Log.Handler.location? : Log.Handler → Option Location
  | .terminal _ => none
  | .file path => some path.parts

namespace Session

def logFiles (session : Session) : List Location :=
  session.logger.handlers.filterMap Log.Handler.location?

/-- A session and a later one between which nothing happened but records. -/
structure Logged (before after : Session) : Prop where
  logger : after.logger = before.logger
  files : before.space.DiffersAt before.logFiles after.space
  shape : after.space.tree.shape = before.space.tree.shape

namespace Logged

variable {before middle after : Session}

theorem logFiles (h : Logged before after) : after.logFiles = before.logFiles := by
  rw [Session.logFiles, Session.logFiles, h.logger]

theorem refl (session : Session) : Logged session session := ⟨rfl, .refl _ _, rfl⟩

theorem trans (first : Logged before middle) (second : Logged middle after) :
    Logged before after where
  logger := second.logger.trans first.logger
  files := first.files.trans (first.logFiles ▸ second.files)
  shape := second.shape.trans first.shape

end Logged

theorem logged_handle (session : Session) (record : Log.Record) {handler : Log.Handler}
    (h : handler ∈ session.logger.handlers) : Logged session (session.handle record handler) := by
  cases handler with
  | terminal format => exact ⟨rfl, .refl session.logFiles session.space, rfl⟩
  | file path =>
    refine ⟨rfl, (Workspace.differsAt_appendLine session.space path _).mono fun place hplace => ?_,
      Workspace.shape_appendLine session.space path _⟩
    rw [List.mem_singleton.1 hplace]
    exact List.mem_filterMap.2 ⟨.file path, h, rfl⟩

theorem logged_foldl_handle (record : Log.Record) (handlers : List Log.Handler) {session : Session}
    (h : handlers ⊆ session.logger.handlers) :
    Logged session (handlers.foldl (fun session handler => session.handle record handler) session) := by
  induction handlers generalizing session with
  | nil => exact .refl session
  | cons handler rest ih =>
    have hfirst := logged_handle session record (h List.mem_cons_self)
    refine hfirst.trans (ih fun next hnext => ?_)
    rw [hfirst.logger]
    exact h (List.mem_cons_of_mem _ hnext)

theorem logged_emit (session : Session) (record : Log.Record) :
    Logged session (session.emit record) := by
  rw [emit]
  split
  · exact logged_foldl_handle record _ (List.Subset.refl _)
  · exact .refl session

theorem logged_sayAll (messages : List String) (session : Session) :
    Logged session (session.sayAll messages) := by
  induction messages generalizing session with
  | nil => exact .refl session
  | cons message rest ih => exact (logged_emit session _).trans (ih _)

theorem logged_noteAll (messages : List String) (session : Session) :
    Logged session (session.noteAll messages) := by
  induction messages generalizing session with
  | nil => exact .refl session
  | cons message rest ih => exact (logged_emit session _).trans (ih _)

end Session

end UtilityCss
