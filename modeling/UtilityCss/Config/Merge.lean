import UtilityCss.Value.Basic

/-!
# Merging configurations

The entries of one configuration on top of another: mappings are merged key by key, lists are joined, and
any other value replaces the one below it. Keys that are equal are one key, however they are written.
-/

namespace UtilityCss

mutual

def Value.mergeOnto (base : Value) : Value → Value
  | .mapping entries =>
    match base with
    | .mapping below => .mapping (Entries.mergeOnto below entries)
    | _ => .mapping entries
  | .list items =>
    match base with
    | .list below => .list (below ++ items)
    | _ => .list items
  | .scalar s => .scalar s
  | .set items => .set items
  | .pair first second => .pair first second

def Entries.mergeOnto (base : List (Scalar × Value)) : List (Scalar × Value) → List (Scalar × Value)
  | [] => base
  | (key, value) :: rest =>
    Entries.mergeOnto (Entries.define key (match Entries.valueOf? base key with
      | some below => Value.mergeOnto below value
      | none => value) base) rest

end

end UtilityCss
