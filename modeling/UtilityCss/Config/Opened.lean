import UtilityCss.Config.Source
import UtilityCss.Files.Walk

/-!
# Open configurations

While references are followed, the files on the way are open. Every file that is opened stands in the tree,
so opening one that is not open yet leaves fewer of them.
-/

namespace UtilityCss.Config

def remaining (space : Workspace) (seen : List Location) : Nat :=
  (space.tree.nodes.filter fun node => node.1 ∉ seen).length

theorem exists_node_of_readFile {reader : Yaml.Reader} {space : Workspace} {path : Path} {config : Entries}
    (h : readFile reader space path = .ok config) :
    ∃ node, (space.resolve path, node) ∈ space.tree.nodes := by
  unfold readFile at h
  cases hr : space.read path with
  | ok bytes => exact exists_node_of_read hr
  | error error =>
    simp [hr] at h

theorem remaining_cons_le (seen : List Location) (location : Location)
    (nodes : List (Location × Node)) :
    (nodes.filter fun node => node.1 ∉ location :: seen).length ≤
      (nodes.filter fun node => node.1 ∉ seen).length := by
  rw [← List.countP_eq_length_filter, ← List.countP_eq_length_filter]
  exact List.countP_mono_left fun node _ h => by simp_all

theorem remaining_lt {space : Workspace} {seen : List Location} {location : Location} {node : Node}
    (hm : (location, node) ∈ space.tree.nodes) (hs : location ∉ seen) :
    remaining space (location :: seen) < remaining space seen := by
  unfold remaining
  generalize space.tree.nodes = nodes at hm ⊢
  induction nodes with
  | nil => simp at hm
  | cons a nodes ih =>
    have hle := remaining_cons_le seen location nodes
    by_cases he : a.1 = location
    · simp_all only [List.filter_cons, List.mem_cons, true_or, not_true, decide_false,
        Bool.false_eq_true, if_false, not_false_eq_true, decide_true, if_true, List.length_cons]
      omega
    · have hm' : (location, node) ∈ nodes := by
        rcases List.mem_cons.mp hm with rfl | hm
        · exact absurd rfl he
        · exact hm
      have := ih hm'
      by_cases h1 : a.1 ∈ seen <;> simp_all

theorem remaining_lt_of_readFile {reader : Yaml.Reader} {space : Workspace} {path : Path} {config : Entries}
    {seen : List Location} (hr : readFile reader space path = .ok config)
    (hs : space.resolve path ∉ seen) :
    remaining space (space.resolve path :: seen) < remaining space seen :=
  have ⟨_, hm⟩ := exists_node_of_readFile hr
  remaining_lt hm hs

end UtilityCss.Config
