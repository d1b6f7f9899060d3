import UtilityCss.Files.Walk
import UtilityCss.Proofs.Attempts

/-!
# What changes in a tree

Putting a node into a tree changes what stands at one location. Making the folders that lead to a path, in
full or up to an error, adds folders and nothing else. A text that is saved at a path therefore changes the
file that the path leads to, and when it cannot be saved, no file at all.
-/

namespace UtilityCss

namespace FileTree

def bytes? (tree : FileTree) (location : Location) : Option ByteArray :=
  match tree.node? location with
  | some (.file bytes) => some bytes
  | _ => none

variable {tree later : FileTree} {location other : Location} {node : Node}

@[simp] theorem node?_root : tree.node? [] = some .folder := rfl

theorem lookup_putNode (nodes : List (Location × Node)) :
    (putNode location node nodes).lookup other =
      if other = location then some node else nodes.lookup other := by
  by_cases h : other = location
  · subst h
    rw [if_pos rfl]
    induction nodes with
    | nil => simp [putNode]
    | cons entry rest ih =>
      by_cases hentry : entry.1 = other
      · simp [putNode, hentry]
      · rw [putNode, if_neg hentry, List.lookup_cons, beq_eq_false_iff_ne.mpr (Ne.symm hentry)]
        exact ih
  · rw [if_neg h]
    induction nodes with
    | nil => rw [putNode, List.lookup_cons, beq_eq_false_iff_ne.mpr h]
    | cons entry rest ih =>
      by_cases hentry : entry.1 = location
      · rw [putNode, if_pos hentry, List.lookup_cons, List.lookup_cons, hentry,
          beq_eq_false_iff_ne.mpr h]
      · rw [putNode, if_neg hentry, List.lookup_cons, List.lookup_cons, ih]

theorem node?_put (hlocation : location ≠ []) :
    (tree.put location node).node? other =
      if other = location then some node else tree.node? other := by
  cases other with
  | nil => rw [if_neg (Ne.symm hlocation), node?_root, node?_root]
  | cons name names => exact lookup_putNode tree.nodes

theorem bytes?_congr (h : later.node? location = tree.node? location) :
    later.bytes? location = tree.bytes? location := by
  rw [bytes?, bytes?, h]

theorem bytes?_put (hlocation : location ≠ []) (bytes : ByteArray) :
    (tree.put location (.file bytes)).bytes? other =
      if other = location then some bytes else tree.bytes? other := by
  rw [bytes?, node?_put hlocation]
  by_cases h : other = location
  · rw [if_pos h, if_pos h]
  · rw [if_neg h, if_neg h, bytes?]

end FileTree

namespace Workspace

/-- The workspaces differ in nothing but folders that the second one has more. -/
structure GainsFolders (before after : Workspace) : Prop where
  here : after.here = before.here
  kept : ∀ {location : Location} {node : Node},
    before.tree.node? location = some node → after.tree.node? location = some node
  added : ∀ {location : Location} {node : Node},
    before.tree.node? location = none → after.tree.node? location = some node → node = .folder

namespace GainsFolders

variable {before middle after : Workspace}

theorem refl (space : Workspace) : GainsFolders space space where
  here := rfl
  kept := id
  added hnone hsome := by
    rw [hnone] at hsome
    cases hsome

theorem trans (first : GainsFolders before middle) (second : GainsFolders middle after) :
    GainsFolders before after where
  here := second.here.trans first.here
  kept h := second.kept (first.kept h)
  added {location} {node} hnone hsome := by
    cases hmiddle : middle.tree.node? location with
    | none => exact second.added hmiddle hsome
    | some other =>
      -- a node that was added first is still the same in the end
      rw [second.kept hmiddle] at hsome
      rw [← Option.some.inj hsome]
      exact first.added hnone hmiddle

theorem bytes? (h : GainsFolders before after) (location : Location) :
    after.tree.bytes? location = before.tree.bytes? location := by
  cases hbefore : before.tree.node? location with
  | some node => exact FileTree.bytes?_congr ((h.kept hbefore).trans hbefore.symm)
  | none =>
    cases hafter : after.tree.node? location with
    | none => exact FileTree.bytes?_congr (hafter.trans hbefore.symm)
    | some node =>
      rw [FileTree.bytes?, FileTree.bytes?, hbefore, hafter, h.added hbefore hafter]

theorem resolve (h : GainsFolders before after) (path : Path) :
    after.resolve path = before.resolve path := by
  rw [Workspace.resolve, Workspace.resolve, h.here]

end GainsFolders

variable {space after : Workspace} {path : Path}

theorem locate_eq_resolve {location : Location} (h : space.locate path = .ok location) :
    location = space.resolve path := by
  rw [locate] at h
  split at h
  · cases h
  · split at h
    · rename_i hwalk
      exact (Except.ok.inj h) ▸ walk_eq_foldl hwalk
    · cases h

theorem gainsFolders_of_makeFolder (h : space.makeFolder path = .ok after) :
    GainsFolders space after := by
  rw [makeFolder] at h
  obtain ⟨location, -, h⟩ := bind_eq_ok.1 h
  split at h
  · cases h
  · rename_i hnone
    obtain rfl := Except.ok.inj h
    have hlocation : location ≠ [] := by
      rintro rfl
      cases hnone
    refine ⟨rfl, fun {other node} hsome => ?_, fun {other node} hother hsome => ?_⟩
    · rw [FileTree.node?_put hlocation, if_neg]
      · exact hsome
      · rintro rfl
        rw [hnone] at hsome
        cases hsome
    · rw [FileTree.node?_put hlocation] at hsome
      split at hsome
      · exact (Option.some.inj hsome).symm
      · rw [hother] at hsome
        cases hsome

theorem gainsFolders_ensureFolder (space : Workspace) (path : Path) :
    GainsFolders space (space.ensureFolder path).1 := by
  rw [ensureFolder]
  split
  · rename_i hmade
    exact gainsFolders_of_makeFolder hmade
  · exact .refl space

theorem gainsFolders_makeFoldersTo (space : Workspace) (path : Path) (depth : Nat) :
    GainsFolders space (space.makeFoldersTo path depth).1 := by
  induction depth with
  | zero => exact gainsFolders_ensureFolder space _
  | succ depth ih =>
    rw [makeFoldersTo]
    split
    · split
      · rename_i hto
        rw [hto] at ih
        exact ih
      · rename_i hto
        rw [hto] at ih
        exact ih.trans (gainsFolders_ensureFolder _ _)
    · exact gainsFolders_ensureFolder space _

theorem gainsFolders_of_save {bytes : ByteArray} {error : FileError}
    (h : space.save path bytes = (after, some error)) : GainsFolders space after := by
  have hfolders := gainsFolders_makeFoldersTo space path.parent path.parent.parts.length
  rw [save, makeFolders] at h
  split at h
  · rename_i hmade
    rw [hmade] at hfolders
    exact (Prod.mk.inj h).1 ▸ hfolders
  · rename_i hmade
    rw [hmade] at hfolders
    split at h
    · cases h
    · exact (Prod.mk.inj h).1 ▸ hfolders

theorem bytes?_of_write {bytes : ByteArray} (h : space.write path bytes = .ok after)
    (location : Location) :
    after.tree.bytes? location =
      if location = space.resolve path then some bytes else space.tree.bytes? location := by
  rw [write] at h
  obtain ⟨place, hlocate, h⟩ := bind_eq_ok.1 h
  split at h
  · cases h
  · rename_i hfolder
    obtain rfl := Except.ok.inj h
    have hplace : place ≠ [] := by
      rintro rfl
      exact hfolder rfl
    rw [← locate_eq_resolve hlocate]
    exact FileTree.bytes?_put hplace bytes

theorem bytes?_of_save {bytes : ByteArray} (h : space.save path bytes = (after, none))
    (location : Location) :
    after.tree.bytes? location =
      if location = space.resolve path then some bytes else space.tree.bytes? location := by
  have hfolders := gainsFolders_makeFoldersTo space path.parent path.parent.parts.length
  rw [save, makeFolders] at h
  split at h
  · cases h
  · rename_i made hmade
    rw [hmade] at hfolders
    split at h
    · rename_i hwrite
      obtain rfl := (Prod.mk.inj h).1
      rw [bytes?_of_write hwrite, hfolders.resolve, hfolders.bytes?]
    · cases h

end Workspace

end UtilityCss
