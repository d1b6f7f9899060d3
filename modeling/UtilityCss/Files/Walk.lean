import UtilityCss.Files.Tree

/-!
# Where walks lead

A walk through a tree that succeeds ends where its names alone lead, so that a file that can be read stands
in the tree at the location of its path.
-/

namespace UtilityCss

theorem walk_eq_foldl {tree : FileTree} : ∀ {parts : List String} {here location : Location},
    tree.walk here parts = .ok location → location = parts.foldl Path.follow here
  | [], here, location, h => by
    simp only [FileTree.walk, List.foldlM_nil, pure, Except.pure, Except.ok.injEq] at h
    exact h.symm
  | part :: parts, here, location, h => by
    simp only [FileTree.walk, List.foldlM_cons] at h
    cases hs : tree.step here part with
    | error fault =>
      rw [hs] at h
      exact absurd h (by simp [bind, Except.bind])
    | ok next =>
      rw [hs] at h
      have hn : next = Path.follow here part := by
        unfold FileTree.step at hs
        split at hs
        · simp at hs
        · simp at hs
        · split at hs <;> simp_all
      exact (walk_eq_foldl (by simpa [FileTree.walk, bind, Except.bind] using h)).trans
        (by rw [hn, List.foldl_cons])

theorem mem_of_lookup {location : Location} {node : Node} :
    ∀ {nodes : List (Location × Node)}, nodes.lookup location = some node →
      (location, node) ∈ nodes
  | [], h => by simp at h
  | (other, value) :: rest, h => by
    by_cases he : location = other
    · subst he
      simp_all
    · rw [List.lookup_cons, beq_eq_false_iff_ne.mpr he] at h
      exact List.mem_cons_of_mem _ (mem_of_lookup h)

theorem node?_of_read {space : Workspace} {path : Path} {bytes : ByteArray}
    (h : space.read path = .ok bytes) :
    space.tree.node? (space.resolve path) = some (.file bytes) := by
  unfold Workspace.read Workspace.locate at h
  cases hp : path.fault? with
  | some fault =>
    rw [hp] at h
    exact absurd h (by simp [bind, Except.bind])
  | none =>
    rw [hp] at h
    cases hw : space.tree.walk (space.start path) path.parts with
    | error fault =>
      exact absurd h (by simp [hw, bind, Except.bind])
    | ok location =>
      rw [hw] at h
      have hl : location = space.resolve path := walk_eq_foldl hw
      rw [← hl]
      simp only [bind, Except.bind] at h
      split at h <;> simp_all

theorem exists_node_of_read {space : Workspace} {path : Path} {bytes : ByteArray}
    (h : space.read path = .ok bytes) :
    ∃ node, (space.resolve path, node) ∈ space.tree.nodes := by
  have hf := node?_of_read h
  unfold FileTree.node? at hf
  split at hf
  · simp at hf
  · exact ⟨.file bytes, mem_of_lookup hf⟩

end UtilityCss
