import Mathlib.Data.List.Induction
import Mathlib.Data.List.Nodup
import UtilityCss.Config.Merge

/-!
# Merging in order

Merging configurations whose values are of the same kinds wherever both have one is associative: any number
of them can be merged in one row, or in groups. A value of the result is then the last one that stands at its
place, or all lists there joined. Keys are told apart as mappings tell them apart, by `Scalar.identity`.
-/

namespace UtilityCss.Scalar

def identity : Scalar → Scalar ⊕ (Bool × Int)
  | moment m => .inr (m.offset.isSome, m.instant)
  | s => .inl s.reduced

theorem reduced_ne_moment {s : Scalar} (h : ∀ m, s ≠ .moment m) (m : Moment) : s.reduced ≠ .moment m := by
  cases s with
  | real x => cases hx : x.whole? <;> simp [reduced, hx]
  | moment m' => exact absurd rfl (h m')
  | null | bool | int | text | day | bytes => simp [reduced]

theorem equals_iff {a b : Scalar} : a.equals b ↔ a.identity = b.identity := by
  by_cases ha : ∃ m, a = .moment m
  · obtain ⟨m, rfl⟩ := ha
    by_cases hb : ∃ n, b = .moment n
    · obtain ⟨n, rfl⟩ := hb
      simp [equals, identity]
    · have hb := not_exists.1 hb
      have hne := reduced_ne_moment hb m
      have hidentity : b.identity = .inl b.reduced := by
        cases b with
        | moment n => exact absurd rfl (hb n)
        | _ => rfl
      have hequals : (Scalar.moment m).equals b = (Scalar.moment m == b.reduced) := by
        cases b with
        | moment n => exact absurd rfl (hb n)
        | _ => rfl
      rw [hequals, hidentity]
      simp [identity, Ne.symm hne]
  · have ha := not_exists.1 ha
    have hidentity : a.identity = .inl a.reduced := by
      cases a with
      | moment n => exact absurd rfl (ha n)
      | _ => rfl
    have hequals : a.equals b = (a.reduced == b.reduced) := by
      cases a with
      | moment n => exact absurd rfl (ha n)
      | _ => rfl
    rw [hequals, hidentity]
    by_cases hb : ∃ n, b = .moment n
    · obtain ⟨n, rfl⟩ := hb
      simpa [identity, reduced] using reduced_ne_moment ha n
    · have hb := not_exists.1 hb
      have hidentity : b.identity = .inl b.reduced := by
        cases b with
        | moment n => exact absurd rfl (hb n)
        | _ => rfl
      rw [hidentity]
      simp

end UtilityCss.Scalar

namespace UtilityCss.Value

mutual

def decEq : (v w : Value) → Decidable (v = w)
  | .scalar s, .scalar t => decidable_of_iff (s = t) ⟨congrArg _, scalar.inj⟩
  | .list xs, .list ys => @decidable_of_iff _ (xs = ys) ⟨congrArg _, list.inj⟩ (decEqList xs ys)
  | .mapping a, .mapping b => @decidable_of_iff _ (a = b) ⟨congrArg _, mapping.inj⟩ (decEqEntries a b)
  | .set s, .set t => decidable_of_iff (s = t) ⟨congrArg _, set.inj⟩
  | .pair a b, .pair c d =>
    @decidable_of_iff _ (a = c ∧ b = d) ⟨fun h => by rw [h.1, h.2], pair.inj⟩
      (@instDecidableAnd _ _ (decEq a c) (decEq b d))
  | .scalar _, .list _ | .scalar _, .mapping _ | .scalar _, .set _ | .scalar _, .pair _ _
  | .list _, .scalar _ | .list _, .mapping _ | .list _, .set _ | .list _, .pair _ _
  | .mapping _, .scalar _ | .mapping _, .list _ | .mapping _, .set _ | .mapping _, .pair _ _
  | .set _, .scalar _ | .set _, .list _ | .set _, .mapping _ | .set _, .pair _ _
  | .pair _ _, .scalar _ | .pair _ _, .list _ | .pair _ _, .mapping _ | .pair _ _, .set _ =>
    .isFalse nofun

def decEqList : (xs ys : List Value) → Decidable (xs = ys)
  | [], [] => .isTrue rfl
  | x :: xs, y :: ys =>
    @decidable_of_iff _ (x = y ∧ xs = ys) ⟨fun h => by rw [h.1, h.2], List.cons.inj⟩
      (@instDecidableAnd _ _ (decEq x y) (decEqList xs ys))
  | [], _ :: _ | _ :: _, [] => .isFalse nofun

def decEqEntries : (a b : List (Scalar × Value)) → Decidable (a = b)
  | [], [] => .isTrue rfl
  | (k, v) :: a, (l, w) :: b =>
    @decidable_of_iff _ (k = l ∧ v = w ∧ a = b)
      ⟨fun h => by rw [h.1, h.2.1, h.2.2], fun h => by cases h; exact ⟨rfl, rfl, rfl⟩⟩
      (@instDecidableAnd _ _ _ (@instDecidableAnd _ _ (decEq v w) (decEqEntries a b)))
  | [], _ :: _ | _ :: _, [] => .isFalse nofun

end

instance : DecidableEq Value := decEq

end UtilityCss.Value

namespace UtilityCss.Entries

/-! ### Keys and their values -/

def identities (entries : Entries) : List (Scalar ⊕ (Bool × Int)) :=
  entries.map fun entry => entry.1.identity

variable {entries : Entries} {key k q : Scalar} {value v : Value} {rest : Entries}

theorem nodup_identities_cons : (identities ((k, v) :: rest)).Nodup ↔
    k.identity ∉ identities rest ∧ (identities rest).Nodup :=
  List.nodup_cons

theorem valueOf?_cons : valueOf? ((k, v) :: rest) q =
    if k.identity = q.identity then some v else valueOf? rest q := by
  rw [valueOf?, List.find?_cons]
  by_cases h : k.identity = q.identity
  · rw [if_pos h, Scalar.equals_iff.2 h]
    rfl
  · have hequals : k.equals q = false := by
      rw [Bool.eq_false_iff]
      exact fun h' => h (Scalar.equals_iff.1 h')
    rw [if_neg h, hequals]
    rfl

theorem valueOf?_congr (h : k.identity = q.identity) : valueOf? entries k = valueOf? entries q := by
  induction entries with
  | nil => rfl
  | cons entry entries ih => rw [valueOf?_cons, valueOf?_cons, h, ih]

theorem valueOf?_eq_none : valueOf? entries q = none ↔ q.identity ∉ identities entries := by
  induction entries with
  | nil => simp [valueOf?, identities]
  | cons entry entries ih =>
    rw [valueOf?_cons, identities, List.map_cons, List.mem_cons, not_or, ← identities, ← ih]
    by_cases h : entry.1.identity = q.identity
    · simp [h]
    · simp [h, Ne.symm h]

theorem identity_spelling : (spelling entries key).identity = key.identity := by
  rw [spelling]
  cases hfind : entries.find? fun entry => entry.1.equals key with
  | none => rfl
  | some entry =>
    have hequals := List.find?_some hfind
    exact Scalar.equals_iff.1 hequals

theorem define_nil : define key value [] = [(key, value)] := rfl

theorem define_cons : define key value ((k, v) :: rest) =
    if k.identity = key.identity then (k, value) :: rest else (k, v) :: define key value rest := by
  by_cases h : k.identity = key.identity
  · have hspelling : spelling ((k, v) :: rest) key = k := by
      rw [spelling, List.find?_cons, Scalar.equals_iff.2 h]
      rfl
    rw [if_pos h, define, hspelling, set, if_pos rfl]
  · have hequals : k.equals key = false := by
      rw [Bool.eq_false_iff]
      exact fun h' => h (Scalar.equals_iff.1 h')
    have hspelling : spelling ((k, v) :: rest) key = spelling rest key := by
      rw [spelling, List.find?_cons, hequals]
      rfl
    have hne : k ≠ spelling rest key := by
      intro heq
      rw [heq, identity_spelling] at h
      exact h rfl
    rw [if_neg h, define, hspelling, set, if_neg hne, define]

theorem valueOf?_define : valueOf? (define key value entries) q =
    if key.identity = q.identity then some value else valueOf? entries q := by
  induction entries with
  | nil => rw [define_nil, valueOf?_cons]
  | cons entry entries ih =>
    rw [define_cons, valueOf?_cons]
    by_cases h : entry.1.identity = key.identity
    · rw [if_pos h, valueOf?_cons, h]
      by_cases hq : key.identity = q.identity
      · rw [if_pos hq, if_pos hq]
      · rw [if_neg hq, if_neg hq, if_neg hq]
    · rw [if_neg h, valueOf?_cons, ih]
      by_cases hq : entry.1.identity = q.identity
      · rw [if_pos hq, if_pos hq, if_neg fun hkey => h (hq.trans hkey.symm)]
      · rw [if_neg hq, if_neg hq]

theorem keys_define : (define key value entries).map Prod.fst =
    if (valueOf? entries key).isSome then entries.map Prod.fst
    else entries.map Prod.fst ++ [key] := by
  induction entries with
  | nil => rfl
  | cons entry entries ih =>
    rw [define_cons, valueOf?_cons]
    by_cases h : entry.1.identity = key.identity
    · rw [if_pos h, if_pos h]
      rfl
    · rw [if_neg h, if_neg h, List.map_cons, ih, List.map_cons]
      by_cases hsome : (valueOf? entries key).isSome
      · rw [if_pos hsome, if_pos hsome]
      · rw [if_neg hsome, if_neg hsome, List.cons_append]

theorem identities_eq : identities entries = (entries.map Prod.fst).map Scalar.identity := by
  rw [identities, List.map_map]
  rfl

theorem get?_of_valueOf?_eq_none {name : String} (h : valueOf? entries (.text name) = none) :
    get? entries name = none := by
  rw [get?, List.lookup_eq_none_iff]
  intro entry hentry
  rw [valueOf?_eq_none] at h
  rw [bne_iff_ne]
  intro heq
  exact h (List.mem_map.2 ⟨entry, hentry, by rw [← heq]⟩)

theorem nodup_define (h : (identities entries).Nodup) : (identities (define key value entries)).Nodup := by
  rw [identities_eq, keys_define]
  by_cases hsome : (valueOf? entries key).isSome
  · rw [if_pos hsome, ← identities_eq]
    exact h
  · have hnew := valueOf?_eq_none.1 (Option.not_isSome_iff_eq_none.1 hsome)
    rw [if_neg hsome, List.map_append, ← identities_eq, List.map_singleton]
    refine List.nodup_append.2 ⟨h, List.nodup_singleton _, fun a ha b hb => ?_⟩
    rw [List.mem_singleton.1 hb]
    rintro rfl
    exact hnew ha

theorem ext_of_keys {other : Entries} (h : (identities entries).Nodup)
    (hkeys : entries.map Prod.fst = other.map Prod.fst)
    (hvalues : ∀ q, valueOf? entries q = valueOf? other q) : entries = other := by
  induction entries generalizing other with
  | nil => exact (List.map_eq_nil_iff.1 hkeys.symm).symm
  | cons entry entries ih =>
    cases other with
    | nil => cases hkeys
    | cons entry' other =>
      obtain ⟨k, v⟩ := entry
      obtain ⟨k', v'⟩ := entry'
      obtain ⟨hk, hrestKeys⟩ := List.cons.inj hkeys
      obtain rfl : k = k' := hk
      obtain ⟨hnew, hnodup⟩ := nodup_identities_cons.1 h
      have hnone : valueOf? entries k = none := valueOf?_eq_none.2 hnew
      have hnone' : valueOf? other k = none := by
        rw [valueOf?_eq_none, identities_eq, ← hrestKeys, ← identities_eq]
        exact hnew
      have hfirst := hvalues k
      rw [valueOf?_cons, valueOf?_cons, if_pos rfl, if_pos rfl] at hfirst
      have hrest : entries = other := by
        refine ih hnodup hrestKeys fun q => ?_
        by_cases hq : k.identity = q.identity
        · rw [← valueOf?_congr hq, ← valueOf?_congr hq, hnone, hnone']
        · have hq' := hvalues q
          rwa [valueOf?_cons, valueOf?_cons, if_neg hq, if_neg hq] at hq'
      rw [Option.some.inj hfirst, hrest]

/-! ### One configuration on top of another -/

theorem valueOf?_remove (name : String) : valueOf? (remove name entries) q =
    if q = .text name then none else valueOf? entries q := by
  have hname {k : Scalar} (h : k.identity = (Scalar.text name).identity) : k = .text name := by
    cases k with
    | real x => cases hx : x.whole? <;> simp [Scalar.identity, Scalar.reduced, hx] at h
    | text s => simpa [Scalar.identity, Scalar.reduced] using h
    | null | bool | int | day | moment | bytes => simp [Scalar.identity, Scalar.reduced] at h
  induction entries with
  | nil =>
    have hnone : valueOf? [] q = none := rfl
    rw [remove, List.filter_nil, hnone, ite_self]
  | cons entry entries ih =>
    rw [remove, List.filter_cons, valueOf?_cons]
    by_cases hentry : entry.1 = .text name
    · rw [if_neg (by simpa using hentry), ← remove, ih, hentry]
      by_cases hq : q = .text name
      · rw [if_pos hq, if_pos hq]
      · rw [if_neg hq, if_neg hq, if_neg fun h => hq (hname h.symm)]
    · rw [if_pos (by simpa using hentry), valueOf?_cons, ← remove, ih]
      by_cases hq : q = .text name
      · rw [if_pos hq, if_pos hq, if_neg]
        rintro h
        rw [hq] at h
        exact hentry (hname h)
      · rw [if_neg hq, if_neg hq]

theorem nodup_remove (name : String) (h : (identities entries).Nodup) :
    (identities (remove name entries)).Nodup :=
  h.sublist (List.filter_sublist.map _)

/-- A value on top of another, where each of them may be missing. -/
def layered : Option Value → Option Value → Option Value
  | some below, some value => some (below.mergeOnto value)
  | some below, none => some below
  | none, value => value

theorem mergeOnto_nil (base : Entries) : mergeOnto base [] = base := by rw [mergeOnto]

variable {a b : Entries}

theorem mergeOnto_cons (a : Entries) (key : Scalar) (value : Value) (rest : Entries) :
    ∃ merged, layered (valueOf? a key) (some value) = some merged ∧
      mergeOnto a ((key, value) :: rest) = mergeOnto (define key merged a) rest := by
  rw [mergeOnto]
  cases hbelow : valueOf? a key with
  | none => exact ⟨value, rfl, rfl⟩
  | some below => exact ⟨below.mergeOnto value, rfl, rfl⟩

theorem valueOf?_mergeOnto (hb : (identities b).Nodup) (q : Scalar) :
    valueOf? (mergeOnto a b) q = layered (valueOf? a q) (valueOf? b q) := by
  induction b generalizing a with
  | nil =>
    rw [mergeOnto_nil]
    cases hq : valueOf? a q <;> simp [valueOf?, layered]
  | cons entry b ih =>
    obtain ⟨key, value⟩ := entry
    obtain ⟨hnew, hb⟩ := nodup_identities_cons.1 hb
    obtain ⟨merged, hmerged, heq⟩ := mergeOnto_cons a key value b
    rw [heq, ih hb, valueOf?_define, valueOf?_cons]
    by_cases hq : key.identity = q.identity
    · have hnone : valueOf? b q = none := by
        rw [valueOf?_eq_none, ← hq]
        exact hnew
      rw [if_pos hq, if_pos hq, hnone, ← valueOf?_congr hq, hmerged]
      rfl
    · rw [if_neg hq, if_neg hq]

theorem keys_mergeOnto (hb : (identities b).Nodup) :
    (mergeOnto a b).map Prod.fst =
      a.map Prod.fst ++ (b.map Prod.fst).filter fun key => (valueOf? a key).isNone := by
  induction b generalizing a with
  | nil => simp [mergeOnto_nil]
  | cons entry b ih =>
    obtain ⟨key, value⟩ := entry
    obtain ⟨hnew, hb⟩ := nodup_identities_cons.1 hb
    obtain ⟨merged, -, heq⟩ := mergeOnto_cons a key value b
    have hfilter : ((b.map Prod.fst).filter fun q => (valueOf? (define key merged a) q).isNone) =
        (b.map Prod.fst).filter fun q => (valueOf? a q).isNone := by
      refine List.filter_congr fun q hq => ?_
      have hne : key.identity ≠ q.identity := by
        intro h
        rw [identities_eq] at hnew
        exact hnew (List.mem_map.2 ⟨q, hq, h.symm⟩)
      rw [valueOf?_define, if_neg hne]
    rw [heq, ih hb, hfilter, keys_define, List.map_cons, List.filter_cons]
    cases hkey : valueOf? a key <;> simp

theorem nil_mergeOnto (hb : (identities b).Nodup) : mergeOnto [] b = b := by
  have hkeys : (mergeOnto [] b).map Prod.fst = b.map Prod.fst := by
    rw [keys_mergeOnto hb]
    exact List.filter_eq_self.2 fun q _ => rfl
  refine (ext_of_keys hb hkeys.symm fun q => ?_).symm
  rw [valueOf?_mergeOnto hb]
  rfl

theorem nodup_mergeOnto (ha : (identities a).Nodup) (hb : (identities b).Nodup) :
    (identities (mergeOnto a b)).Nodup := by
  induction b generalizing a with
  | nil =>
    rw [mergeOnto_nil]
    exact ha
  | cons entry b ih =>
    obtain ⟨merged, -, heq⟩ := mergeOnto_cons a entry.1 entry.2 b
    rw [heq]
    exact ih (nodup_define ha) (nodup_identities_cons.1 hb).2

end UtilityCss.Entries

namespace UtilityCss.Value
open Entries

variable {v w x : Value} {a b : Entries}

/-- No mapping in a value, down to where lists begin, has a key twice. -/
inductive WellKeyed : Value → Prop
  | mapping {entries : Entries} (keys : (identities entries).Nodup)
      (values : ∀ q v, valueOf? entries q = some v → WellKeyed v) : WellKeyed (.mapping entries)
  | other {v : Value} (h : v.entries? = none) : WellKeyed v

theorem WellKeyed.keys (h : (Value.mapping a).WellKeyed) : (identities a).Nodup := by
  cases h with
  | mapping keys _ => exact keys
  | other h => cases h

theorem WellKeyed.values (h : (Value.mapping a).WellKeyed) {q : Scalar} (hv : valueOf? a q = some v) :
    v.WellKeyed := by
  cases h with
  | mapping _ values => exact values q v hv
  | other h => cases h

theorem WellKeyed.remove (h : (Value.mapping a).WellKeyed) (name : String) :
    (Value.mapping (Entries.remove name a)).WellKeyed := by
  refine .mapping (nodup_remove name h.keys) fun q v hv => ?_
  rw [valueOf?_remove] at hv
  split at hv
  · cases hv
  · exact h.values hv

theorem wellKeyed_of_flat (hkeys : (identities a).Nodup) (h : ∀ entry ∈ a, entry.2.entries?.isNone) :
    (Value.mapping a).WellKeyed := by
  refine .mapping hkeys fun q v hv => ?_
  obtain ⟨entry, hentry, rfl⟩ := Option.map_eq_some_iff.1 hv
  exact .other (Option.isNone_iff_eq_none.1 (h entry (List.mem_of_find?_eq_some hentry)))

/-! ### Kinds of values -/

inductive Kind
  | mapping
  | list
  | other
  deriving DecidableEq, Repr

def kind : Value → Kind
  | .mapping _ => .mapping
  | .list _ => .list
  | _ => .other

def at? : List Scalar → Value → Option Value
  | [], v => some v
  | key :: keys, .mapping entries => (valueOf? entries key).bind (at? keys)
  | _ :: _, _ => none

def Agrees (v w : Value) : Prop :=
  ∀ keys a b, v.at? keys = some a → w.at? keys = some b → a.kind = b.kind

theorem kind_cases (v : Value) : (∃ entries, v = .mapping entries) ∨ (∃ items, v = .list items) ∨
    v.kind = .other := by
  cases v with
  | mapping entries => exact Or.inl ⟨entries, rfl⟩
  | list items => exact Or.inr (Or.inl ⟨items, rfl⟩)
  | scalar | set | pair => exact Or.inr (Or.inr rfl)

theorem eq_mapping_of_kind (h : v.kind = .mapping) : ∃ entries, v = .mapping entries := by
  cases v with
  | mapping entries => exact ⟨entries, rfl⟩
  | list | scalar | set | pair => cases h

theorem eq_list_of_kind (h : v.kind = .list) : ∃ items, v = .list items := by
  cases v with
  | list items => exact ⟨items, rfl⟩
  | mapping | scalar | set | pair => cases h

theorem mergeOnto_mapping :
    (Value.mapping a).mergeOnto (.mapping b) = .mapping (Entries.mergeOnto a b) := by
  rw [mergeOnto]

theorem mergeOnto_list {items more : List Value} :
    (Value.list items).mergeOnto (.list more) = .list (items ++ more) := by
  rw [mergeOnto]

theorem mergeOnto_of_other (h : w.kind = .other) : v.mergeOnto w = w := by
  cases w with
  | mapping | list => cases h
  | scalar | set | pair => rw [mergeOnto]

theorem kind_mergeOnto : (v.mergeOnto w).kind = w.kind := by
  cases w with
  | mapping b => cases v <;> rw [mergeOnto] <;> simp [kind]
  | list items => cases v <;> rw [mergeOnto] <;> simp [kind]
  | scalar | set | pair => rw [mergeOnto]

theorem at?_of_ne_mapping (h : v.kind ≠ .mapping) (key : Scalar) (keys : List Scalar) :
    v.at? (key :: keys) = none := by
  cases v with
  | mapping => exact absurd rfl h
  | list | scalar | set | pair => rfl

/-! ### What merging keeps -/

theorem WellKeyed.mergeOnto (hv : v.WellKeyed) (hw : w.WellKeyed) : (v.mergeOnto w).WellKeyed := by
  induction hw generalizing v with
  | @mapping b keys values ih =>
    cases v with
    | mapping a =>
      rw [mergeOnto_mapping]
      refine .mapping (nodup_mergeOnto hv.keys keys) fun q x hx => ?_
      rw [valueOf?_mergeOnto keys] at hx
      cases hbelow : valueOf? a q with
      | none =>
        rw [hbelow] at hx
        exact values q x hx
      | some below =>
        cases habove : valueOf? b q with
        | none =>
          rw [hbelow, habove] at hx
          exact hv.values (hbelow.trans hx)
        | some above =>
          rw [hbelow, habove] at hx
          obtain rfl := Option.some.inj hx
          exact ih q above habove (hv.values hbelow)
    | list | scalar | set | pair =>
      rw [Value.mergeOnto]
      · exact .mapping keys values
      · simp
  | @other w h =>
    refine .other ?_
    have hkind : (v.mergeOnto w).kind ≠ .mapping := by
      rw [kind_mergeOnto]
      cases w with
      | mapping => cases h
      | list | scalar | set | pair => simp [kind]
    cases hmerged : v.mergeOnto w with
    | mapping =>
      rw [hmerged] at hkind
      exact absurd rfl hkind
    | list | scalar | set | pair => rfl

theorem Agrees.kind (h : v.Agrees w) : v.kind = w.kind := h [] v w rfl rfl

theorem Agrees.symm (h : v.Agrees w) : w.Agrees v := fun keys a b ha hb => (h keys b a hb ha).symm

theorem Agrees.valueOf? (h : (Value.mapping a).Agrees (.mapping b)) {q : Scalar}
    (hv : Entries.valueOf? a q = some v) (hw : Entries.valueOf? b q = some w) : v.Agrees w := by
  intro keys y z hy hz
  refine h (q :: keys) y z ?_ ?_
  · rw [at?, hv]
    exact hy
  · rw [at?, hw]
    exact hz

theorem at?_mergeOnto (hagree : v.Agrees w) (hw : w.WellKeyed) (keys : List Scalar) :
    (v.mergeOnto w).at? keys = layered (v.at? keys) (w.at? keys) := by
  induction keys generalizing v w with
  | nil => rfl
  | cons key keys ih =>
    by_cases hkind : w.kind = .mapping
    · obtain ⟨b, rfl⟩ := eq_mapping_of_kind hkind
      obtain ⟨a, rfl⟩ := eq_mapping_of_kind (hagree.kind.trans hkind)
      rw [mergeOnto_mapping, at?, at?, at?, valueOf?_mergeOnto hw.keys]
      cases hbelow : Entries.valueOf? a key with
      | none => rfl
      | some below =>
        cases habove : Entries.valueOf? b key with
        | none =>
          cases hat : at? keys below with
          | none => simp [layered, hat]
          | some y => simp [layered, hat]
        | some above =>
          rw [layered, Option.bind_some, Option.bind_some, Option.bind_some]
          exact ih (hagree.valueOf? hbelow habove) (hw.values habove)
    · rw [at?_of_ne_mapping (by rwa [kind_mergeOnto]), at?_of_ne_mapping (by rwa [hagree.kind]),
        at?_of_ne_mapping hkind]
      rfl

theorem Agrees.mergeOnto (hvw : v.Agrees w) (hw : w.WellKeyed) (hvx : v.Agrees x) (hwx : w.Agrees x) :
    (v.mergeOnto w).Agrees x := by
  intro keys y z hy hz
  rw [at?_mergeOnto hvw hw] at hy
  cases hbelow : v.at? keys with
  | none =>
    rw [hbelow] at hy
    exact hwx keys y z hy hz
  | some below =>
    cases habove : w.at? keys with
    | none =>
      rw [hbelow, habove] at hy
      obtain rfl := Option.some.inj hy
      exact hvx keys below z hbelow hz
    | some above =>
      rw [hbelow, habove] at hy
      obtain rfl := Option.some.inj hy
      rw [kind_mergeOnto]
      exact hwx keys above z habove hz

theorem mergeOnto_assoc (hv : v.WellKeyed) (hw : w.WellKeyed) (hx : x.WellKeyed) (hvw : v.Agrees w)
    (hvx : v.Agrees x) (hwx : w.Agrees x) :
    (v.mergeOnto w).mergeOnto x = v.mergeOnto (w.mergeOnto x) := by
  -- The last value decides on the kind of all three, so that the induction is on it alone.
  induction hx generalizing v w with
  | @mapping c keys values ih =>
    obtain ⟨b, rfl⟩ := eq_mapping_of_kind hwx.kind
    obtain ⟨a, rfl⟩ := eq_mapping_of_kind hvw.kind
    simp only [mergeOnto_mapping]
    congr 1
    have hbc := nodup_mergeOnto hw.keys keys
    refine ext_of_keys (nodup_mergeOnto (nodup_mergeOnto hv.keys hw.keys) keys) ?_ fun q => ?_
    · rw [keys_mergeOnto keys, keys_mergeOnto hw.keys, keys_mergeOnto hbc, keys_mergeOnto keys,
        List.filter_append, List.filter_filter, List.append_assoc]
      congr 2
      refine List.filter_congr fun q _ => ?_
      rw [valueOf?_mergeOnto hw.keys]
      cases Entries.valueOf? a q <;> cases Entries.valueOf? b q <;> rfl
    · rw [valueOf?_mergeOnto keys, valueOf?_mergeOnto hw.keys, valueOf?_mergeOnto hbc,
        valueOf?_mergeOnto keys]
      cases ha : Entries.valueOf? a q with
      | none => rfl
      | some y =>
        cases hb : Entries.valueOf? b q with
        | none => cases Entries.valueOf? c q <;> rfl
        | some z =>
          cases hc : Entries.valueOf? c q with
          | none => rfl
          | some u =>
            simp only [layered]
            rw [ih q u hc (hv.values ha) (hw.values hb) (hvw.valueOf? ha hb) (hvx.valueOf? ha hc)
              (hwx.valueOf? hb hc)]
  | @other x h =>
    rcases kind_cases x with ⟨c, rfl⟩ | ⟨items, rfl⟩ | hother
    · cases h
    · obtain ⟨more, rfl⟩ := eq_list_of_kind hwx.kind
      obtain ⟨most, rfl⟩ := eq_list_of_kind hvw.kind
      simp only [mergeOnto_list, List.append_assoc]
    · rw [mergeOnto_of_other hother, mergeOnto_of_other hother, mergeOnto_of_other hother]

end UtilityCss.Value

namespace UtilityCss.Entries
open Value

/-! ### Any number of configurations -/

def mergeAll (files : List Entries) : Entries := files.foldl mergeOnto []

def valuesAt (files : List Entries) (keys : List Scalar) : List Value :=
  files.filterMap fun file => (Value.mapping file).at? keys

/-- Wherever two of some configurations both have a value, the values are of one kind. -/
def Consistent (files : List Entries) : Prop :=
  ∀ a ∈ files, ∀ b ∈ files, (Value.mapping a).Agrees (.mapping b)

theorem kind_eq_of_mem_valuesAt {files : List Entries} (h : Consistent files) {keys : List Scalar}
    {v w : Value} (hv : v ∈ valuesAt files keys) (hw : w ∈ valuesAt files keys) : v.kind = w.kind := by
  obtain ⟨a, ha, hat⟩ := List.mem_filterMap.1 hv
  obtain ⟨b, hb, hbt⟩ := List.mem_filterMap.1 hw
  exact h a ha b hb keys v w hat hbt

theorem consistent_of_flat {files : List Entries}
    (hflat : ∀ file ∈ files, ∀ entry ∈ file, entry.2.kind ≠ .mapping)
    (hkinds : ∀ a ∈ files, ∀ b ∈ files, ∀ entry ∈ a, ∀ entry' ∈ b,
      entry.1.identity = entry'.1.identity → entry.2.kind = entry'.2.kind) : Consistent files := by
  have hfind {file : Entries} {q : Scalar} {v : Value} (hv : valueOf? file q = some v) :
      ∃ entry ∈ file, entry.1.identity = q.identity ∧ entry.2 = v := by
    obtain ⟨entry, hentry, rfl⟩ := Option.map_eq_some_iff.1 hv
    have hequals := List.find?_some hentry
    exact ⟨entry, List.mem_of_find?_eq_some hentry, Scalar.equals_iff.1 hequals, rfl⟩
  have hdeep {file : Entries} (hfile : file ∈ files) {q key : Scalar} {keys : List Scalar} :
      (Value.mapping file).at? (q :: key :: keys) = none := by
    rw [at?]
    cases hv : valueOf? file q with
    | none => rfl
    | some v =>
      obtain ⟨entry, hentry, -, rfl⟩ := hfind hv
      exact at?_of_ne_mapping (hflat file hfile entry hentry) key keys
  intro a ha b hb keys v w hv hw
  match keys with
  | [] =>
    obtain rfl := Option.some.inj hv
    obtain rfl := Option.some.inj hw
    rfl
  | [q] =>
    rw [at?, Option.bind_eq_some_iff] at hv hw
    obtain ⟨v', hv', hv⟩ := hv
    obtain ⟨w', hw', hw⟩ := hw
    obtain rfl := Option.some.inj hv
    obtain rfl := Option.some.inj hw
    obtain ⟨entry, hentry, hkey, rfl⟩ := hfind hv'
    obtain ⟨entry', hentry', hkey', rfl⟩ := hfind hw'
    exact hkinds a ha b hb entry hentry entry' hentry' (hkey.trans hkey'.symm)
  | q :: key :: keys =>
    rw [hdeep ha] at hv
    cases hv

theorem mergeAll_concat (files : List Entries) (file : Entries) :
    mergeAll (files ++ [file]) = mergeOnto (mergeAll files) file := by
  rw [mergeAll, List.foldl_append]
  rfl

section Files

variable {files others : List Entries}

theorem Consistent.of_append_left (h : Consistent (files ++ others)) : Consistent files :=
  fun a ha b hb => h a (List.mem_append_left _ ha) b (List.mem_append_left _ hb)

theorem Consistent.of_append_right (h : Consistent (files ++ others)) : Consistent others :=
  fun a ha b hb => h a (List.mem_append_right _ ha) b (List.mem_append_right _ hb)

theorem wellKeyed_mergeAll (h : ∀ file ∈ files, (Value.mapping file).WellKeyed) :
    (Value.mapping (mergeAll files)).WellKeyed := by
  induction files using List.reverseRecOn with
  | nil => exact .mapping List.nodup_nil fun q v hv => by cases hv
  | append_singleton files file ih =>
    obtain ⟨hwell, hlast⟩ := List.forall_mem_append.1 h
    rw [mergeAll_concat, ← mergeOnto_mapping]
    exact (ih hwell).mergeOnto (hlast file List.mem_cons_self)

theorem agrees_mergeAll {v : Value} (h : ∀ file ∈ files, (Value.mapping file).WellKeyed)
    (hconsistent : Consistent files) (hv : v.kind = .mapping)
    (hagree : ∀ file ∈ files, (Value.mapping file).Agrees v) :
    (Value.mapping (mergeAll files)).Agrees v := by
  induction files using List.reverseRecOn generalizing v with
  | nil =>
    intro keys a b ha hb
    cases keys with
    | nil =>
      obtain rfl := Option.some.inj ha
      obtain rfl := Option.some.inj hb
      exact hv.symm
    | cons key keys => cases ha
  | append_singleton files file ih =>
    obtain ⟨hwell, hlast⟩ := List.forall_mem_append.1 h
    obtain ⟨hbefore, hfile⟩ := List.forall_mem_append.1 hagree
    have hwithin : ∀ other ∈ files, (Value.mapping other).Agrees (.mapping file) :=
      fun other hother => hconsistent other (List.mem_append_left _ hother) file (by simp)
    have ih {w : Value} (hw : w.kind = .mapping)
        (hagree : ∀ other ∈ files, (Value.mapping other).Agrees w) :=
      ih hwell hconsistent.of_append_left hw hagree
    rw [mergeAll_concat, ← mergeOnto_mapping]
    exact (ih rfl hwithin).mergeOnto (hlast file List.mem_cons_self) (ih hv hbefore)
      (hfile file List.mem_cons_self)

theorem mergeAll_append (h : ∀ file ∈ files ++ others, (Value.mapping file).WellKeyed)
    (hconsistent : Consistent (files ++ others)) :
    mergeOnto (mergeAll files) (mergeAll others) = mergeAll (files ++ others) := by
  induction others using List.reverseRecOn with
  | nil =>
    have hnone : mergeAll [] = [] := rfl
    rw [hnone, mergeOnto_nil, List.append_nil]
  | append_singleton others file ih =>
    rw [← List.append_assoc] at h hconsistent ⊢
    obtain ⟨hwell, hlast⟩ := List.forall_mem_append.1 h
    obtain ⟨hfirst, hsecond⟩ := List.forall_mem_append.1 hwell
    have hboth := hconsistent.of_append_left
    have hfile : ∀ other ∈ files ++ others, (Value.mapping other).Agrees (.mapping file) :=
      fun other hother => hconsistent other (List.mem_append_left _ hother) file (by simp)
    obtain ⟨hfirstFile, hsecondFile⟩ := List.forall_mem_append.1 hfile
    have hfirstAgrees {v : Value} (hv : v.kind = .mapping) (hagree : ∀ one ∈ files, Agrees (.mapping one) v) :=
      agrees_mergeAll hfirst hboth.of_append_left hv hagree
    have hsecondAgrees {v : Value} (hv : v.kind = .mapping)
        (hagree : ∀ other ∈ others, Agrees (.mapping other) v) :=
      agrees_mergeAll hsecond hboth.of_append_right hv hagree
    have hgroups : (Value.mapping (mergeAll files)).Agrees (.mapping (mergeAll others)) := by
      refine hfirstAgrees rfl fun one hone => Agrees.symm ?_
      refine hsecondAgrees rfl fun other hother => ?_
      exact hboth other (List.mem_append_right _ hother) one (List.mem_append_left _ hone)
    have hassoc := mergeOnto_assoc (wellKeyed_mergeAll hfirst) (wellKeyed_mergeAll hsecond)
      (hlast file List.mem_cons_self) hgroups (hfirstAgrees rfl hfirstFile) (hsecondAgrees rfl hsecondFile)
    simp only [mergeOnto_mapping, Value.mapping.injEq] at hassoc
    rw [mergeAll_concat, mergeAll_concat, ← hassoc, ih hwell hboth]

theorem mergeAll_singleton {file : Entries} (h : (Value.mapping file).WellKeyed) :
    mergeAll [file] = file :=
  nil_mergeOnto h.keys

theorem at?_mergeAll (h : ∀ file ∈ files, (Value.mapping file).WellKeyed) (hconsistent : Consistent files)
    (key : Scalar) (keys : List Scalar) :
    (Value.mapping (mergeAll files)).at? (key :: keys) =
      (valuesAt files (key :: keys)).foldl (fun below v => layered below (some v)) none := by
  induction files using List.reverseRecOn with
  | nil => rfl
  | append_singleton files file ih =>
    obtain ⟨hwell, hlast⟩ := List.forall_mem_append.1 h
    have hfile := agrees_mergeAll hwell hconsistent.of_append_left rfl fun other hother =>
      hconsistent other (List.mem_append_left _ hother) file (by simp)
    rw [mergeAll_concat, ← mergeOnto_mapping, at?_mergeOnto hfile (hlast file List.mem_cons_self),
      ih hwell hconsistent.of_append_left, valuesAt, valuesAt, List.filterMap_append, List.foldl_append]
    cases hlast : (Value.mapping file).at? (key :: keys) with
    | none =>
      rw [List.filterMap_cons, hlast]
      cases (files.filterMap fun file => (Value.mapping file).at? (key :: keys)).foldl
        (fun below v => layered below (some v)) none <;> rfl
    | some v =>
      rw [List.filterMap_cons, hlast]
      rfl

theorem valueOf?_mergeAll_eq_none (h : ∀ file ∈ files, (Value.mapping file).WellKeyed)
    (hconsistent : Consistent files) {key : Scalar} (hnone : ∀ file ∈ files, valueOf? file key = none) :
    valueOf? (mergeAll files) key = none := by
  have hvalues : valuesAt files [key] = [] := by
    rw [valuesAt, List.filterMap_eq_nil_iff]
    intro file hfile
    rw [at?, hnone file hfile]
    rfl
  have hfound := at?_mergeAll h hconsistent key []
  rw [hvalues, at?] at hfound
  cases hvalue : valueOf? (mergeAll files) key with
  | none => rfl
  | some v =>
    rw [hvalue] at hfound
    cases hfound

end Files

/-! ### Values on top of each other -/

theorem foldl_layered_of_other {values : List Value} (h : ∀ v ∈ values, v.kind = .other) :
    values.foldl (fun below v => layered below (some v)) none = values.getLast? := by
  induction values using List.reverseRecOn with
  | nil => rfl
  | append_singleton values v ih =>
    have hv := h v (by simp)
    rw [List.foldl_append, ih fun w hw => h w (List.mem_append_left _ hw), List.foldl_cons,
      List.foldl_nil, List.getLast?_concat]
    cases values.getLast? with
    | none => rfl
    | some below => rw [layered, mergeOnto_of_other hv]

def itemsOf : Value → List Value
  | .list items => items
  | _ => []

theorem foldl_layered_of_list {values : List Value} (hne : values ≠ [])
    (h : ∀ v ∈ values, v.kind = .list) :
    values.foldl (fun below v => layered below (some v)) none = some (.list (values.flatMap itemsOf)) := by
  induction values using List.reverseRecOn with
  | nil => exact absurd rfl hne
  | append_singleton values v ih =>
    obtain ⟨items, rfl⟩ := eq_list_of_kind (h v (by simp))
    rw [List.foldl_append, List.foldl_cons, List.foldl_nil, List.flatMap_append]
    cases values with
    | nil => simp [layered, itemsOf]
    | cons w values =>
      rw [ih (List.cons_ne_nil w values) fun u hu => h u (List.mem_append_left _ hu), layered,
        mergeOnto_list]
      simp [itemsOf]

end UtilityCss.Entries
