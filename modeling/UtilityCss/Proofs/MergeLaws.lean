import UtilityCss.Proofs.Merging

/-!
# The laws of merging

Configurations whose values are of the same kinds wherever two of them have one form a monoid under merging, with
the empty configuration as its unit. What three of them give has the keys of all three at every level, their lists
joined in order, and otherwise the last of the values at a place. Whether the kinds agree can be computed, and so
can whether no key is there twice.
-/

namespace UtilityCss.Value
open Entries

mutual

def agreesWith : Value → Value → Bool
  | .mapping a, .mapping b => entriesAgreeWith a b
  | v, w => v.kind == w.kind

def entriesAgreeWith : List (Scalar × Value) → List (Scalar × Value) → Bool
  | [], _ => true
  | (key, v) :: rest, b =>
    (match Entries.valueOf? b key with
      | some w => agreesWith v w
      | none => true) && entriesAgreeWith rest b

end

mutual

def hasDistinctKeys : Value → Bool
  | .mapping entries => decide (identities entries).Nodup && haveDistinctKeys entries
  | _ => true

def haveDistinctKeys : List (Scalar × Value) → Bool
  | [] => true
  | (_, v) :: rest => hasDistinctKeys v && haveDistinctKeys rest

end

variable {v w : Value} {a b : Entries}

theorem agrees_of_kind (hkind : v.kind = w.kind) (hv : v.kind ≠ .mapping) : v.Agrees w := by
  intro keys y z hy hz
  cases keys with
  | nil =>
    obtain rfl := Option.some.inj hy
    obtain rfl := Option.some.inj hz
    exact hkind
  | cons key keys =>
    rw [at?_of_ne_mapping hv] at hy
    cases hy

theorem agrees_mapping
    (h : ∀ q v w, Entries.valueOf? a q = some v → Entries.valueOf? b q = some w → v.Agrees w) :
    (Value.mapping a).Agrees (.mapping b) := by
  intro keys y z hy hz
  cases keys with
  | nil =>
    obtain rfl := Option.some.inj hy
    obtain rfl := Option.some.inj hz
    rfl
  | cons key keys =>
    obtain ⟨v, hv, hy⟩ := Option.bind_eq_some_iff.1 hy
    obtain ⟨w, hw, hz⟩ := Option.bind_eq_some_iff.1 hz
    exact h key v w hv hw keys y z hy hz

mutual

theorem agrees_of_agreesWith : ∀ v w : Value, v.agreesWith w → v.Agrees w
  | .mapping a, .mapping b, h => by
    rw [agreesWith] at h
    exact agrees_mapping (agrees_of_entriesAgreeWith a b h)
  | .mapping a, .list _, h | .mapping a, .scalar _, h | .mapping a, .set _, h | .mapping a, .pair _ _, h => by
    rw [agreesWith] at h
    · cases h
    · simp
  | .list _, w, h | .scalar _, w, h | .set _, w, h | .pair _ _, w, h => by
    rw [agreesWith] at h
    · exact agrees_of_kind (eq_of_beq h) nofun
    · simp

theorem agrees_of_entriesAgreeWith : ∀ a b : Entries, entriesAgreeWith a b →
    ∀ q v w, Entries.valueOf? a q = some v → Entries.valueOf? b q = some w → v.Agrees w
  | [], _, _, _, _, _, hv, _ => by cases hv
  | (key, v) :: rest, b, h, q, v', w, hv, hw => by
    rw [entriesAgreeWith, Bool.and_eq_true] at h
    rw [valueOf?_cons] at hv
    split at hv
    · rename_i hkey
      rw [valueOf?_congr hkey, hw] at h
      obtain rfl := Option.some.inj hv
      exact agrees_of_agreesWith v w h.1
    · exact agrees_of_entriesAgreeWith rest b h.2 q v' w hv hw

end

mutual

theorem wellKeyed_of_hasDistinctKeys : ∀ v : Value, v.hasDistinctKeys → v.WellKeyed
  | .mapping entries, h => by
    rw [hasDistinctKeys, Bool.and_eq_true, decide_eq_true_eq] at h
    exact .mapping h.1 (wellKeyed_of_haveDistinctKeys entries h.2)
  | .list _, _ | .scalar _, _ | .set _, _ | .pair _ _, _ => .other rfl

theorem wellKeyed_of_haveDistinctKeys : ∀ entries : Entries, haveDistinctKeys entries →
    ∀ q v, Entries.valueOf? entries q = some v → v.WellKeyed
  | [], _, _, _, hv => by cases hv
  | (key, v) :: rest, h, q, w, hw => by
    rw [haveDistinctKeys, Bool.and_eq_true] at h
    rw [valueOf?_cons] at hw
    split at hw
    · obtain rfl := Option.some.inj hw
      exact wellKeyed_of_hasDistinctKeys v h.1
    · exact wellKeyed_of_haveDistinctKeys rest h.2 q w hw

end

end UtilityCss.Value

namespace UtilityCss.Entries
open Value

variable {values : List Value} {kind : Kind} {a b c : Entries}

theorem foldl_layered_of_kind (hne : values ≠ []) (h : ∀ v ∈ values, v.kind = kind) :
    ∃ v, values.foldl (fun below v => layered below (some v)) none = some v ∧ v.kind = kind := by
  obtain ⟨before, last, rfl⟩ := (List.eq_nil_or_concat' values).resolve_left hne
  have hlast : last.kind = kind := h last (by simp)
  rw [List.foldl_append, List.foldl_cons, List.foldl_nil]
  cases before.foldl (fun below v => layered below (some v)) none with
  | none => exact ⟨last, rfl, hlast⟩
  | some below => exact ⟨below.mergeOnto last, rfl, kind_mergeOnto.trans hlast⟩

theorem mergeAll_three (ha : (Value.mapping a).WellKeyed) :
    mergeAll [a, b, c] = mergeOnto (mergeOnto a b) c := by
  rw [mergeAll, List.foldl_cons, nil_mergeOnto ha.keys]
  rfl

theorem mem_valuesAt {files : List Entries} {keys : List Scalar} {v : Value} :
    v ∈ valuesAt files keys ↔ ∃ file ∈ files, (Value.mapping file).at? keys = some v :=
  List.mem_filterMap

/-- Merging is associative, with the empty configuration as its unit, where the kinds of values agree. A place of
the result is there if one of the three has it. Lists there are joined, and otherwise the last value counts. -/
theorem mergeOnto_laws (hwell : ∀ file ∈ [a, b, c], (Value.mapping file).WellKeyed)
    (hconsistent : Consistent [a, b, c]) :
    mergeOnto (mergeOnto a b) c = mergeOnto a (mergeOnto b c) ∧ mergeOnto [] a = a ∧ mergeOnto a [] = a ∧
    (Value.mapping (mergeOnto (mergeOnto a b) c)).WellKeyed ∧
    ∀ key keys,
      let found := (Value.mapping (mergeOnto (mergeOnto a b) c)).at? (key :: keys)
      let values := valuesAt [a, b, c] (key :: keys)
      (found.isSome ↔ ∃ file ∈ [a, b, c], ((Value.mapping file).at? (key :: keys)).isSome) ∧
      ∀ v ∈ values,
        (v.kind = .mapping → ∃ entries, found = some (.mapping entries)) ∧
        (v.kind = .list → found = some (.list (values.flatMap itemsOf))) ∧
        (v.kind = .other → found = values.getLast?) := by
  obtain ⟨ha, hb, hc⟩ : (Value.mapping a).WellKeyed ∧ (Value.mapping b).WellKeyed ∧
      (Value.mapping c).WellKeyed := by simpa using hwell
  have hagree {x y : Entries} (hx : x ∈ [a, b, c]) (hy : y ∈ [a, b, c]) :
      (Value.mapping x).Agrees (.mapping y) := hconsistent x hx y hy
  have hassoc := mergeOnto_assoc ha hb hc (hagree (by simp) (by simp)) (hagree (by simp) (by simp))
    (hagree (by simp) (by simp))
  simp only [mergeOnto_mapping, Value.mapping.injEq] at hassoc
  refine ⟨hassoc, nil_mergeOnto ha.keys, mergeOnto_nil a, ?_, fun key keys => ?_⟩
  · rw [← mergeAll_three ha]
    exact wellKeyed_mergeAll hwell
  · intro found values
    have hfound : found = values.foldl (fun below v => layered below (some v)) none := by
      rw [← at?_mergeAll hwell hconsistent, mergeAll_three ha]
    have hkinds {v w : Value} (hv : v ∈ values) (hw : w ∈ values) : w.kind = v.kind :=
      kind_eq_of_mem_valuesAt hconsistent hw hv
    have hsome {v : Value} (hv : v ∈ values) : ∃ w, found = some w ∧ w.kind = v.kind :=
      hfound ▸ foldl_layered_of_kind (List.ne_nil_of_mem hv) fun w hw => hkinds hv hw
    refine ⟨?_, fun v hv => ⟨fun hkind => ?_, fun hkind => ?_, fun hkind => ?_⟩⟩
    · constructor
      · intro h
        have hne : values ≠ [] := by
          intro hnil
          rw [hfound, hnil] at h
          cases h
        obtain ⟨v, hv⟩ := List.exists_mem_of_ne_nil values hne
        obtain ⟨file, hfile, hat⟩ := mem_valuesAt.1 hv
        exact ⟨file, hfile, Option.isSome_iff_exists.2 ⟨v, hat⟩⟩
      · rintro ⟨file, hfile, hat⟩
        obtain ⟨v, hv⟩ := Option.isSome_iff_exists.1 hat
        obtain ⟨w, hw, -⟩ := hsome (mem_valuesAt.2 ⟨file, hfile, hv⟩)
        exact Option.isSome_iff_exists.2 ⟨w, hw⟩
    · obtain ⟨w, hw, hwkind⟩ := hsome hv
      obtain ⟨entries, rfl⟩ := eq_mapping_of_kind (hwkind.trans hkind)
      exact ⟨entries, hw⟩
    · rw [hfound]
      exact foldl_layered_of_list (List.ne_nil_of_mem hv) fun w hw => (hkinds hv hw).trans hkind
    · rw [hfound]
      exact foldl_layered_of_other fun w hw => (hkinds hv hw).trans hkind

theorem mergeOnto_laws_watch :
    let a : Entries := [(.text "prefix", .text "ui"),
      (.text "watch", .mapping [(.text "debounce_ms", .int 500), (.text "paths", .texts ["src"])])]
    let b : Entries := [(.text "watch", .mapping [(.text "paths", .texts ["lib", "web"])]),
      (.text "output", .text "site.css")]
    let c : Entries := [(.text "watch", .mapping [(.text "debounce_ms", .int 50)]), (.text "prefix", .text "x")]
    let merged := Value.mapping (mergeOnto (mergeOnto a b) c)
    mergeOnto (mergeOnto a b) c = mergeOnto a (mergeOnto b c) ∧
      merged.at? [.text "watch", .text "paths"] = some (.texts ["src", "lib", "web"]) ∧
      merged.at? [.text "watch", .text "debounce_ms"] = some (.int 50) := by
  intro a b c merged
  have hwell : ∀ file ∈ [a, b, c], (Value.mapping file).hasDistinctKeys := by decide
  have hagree : ∀ one ∈ [a, b, c], ∀ other ∈ [a, b, c], (Value.mapping one).agreesWith (.mapping other) := by
    decide
  obtain ⟨hassoc, -, -, -, hfound⟩ := @mergeOnto_laws a b c
    (fun file hfile => wellKeyed_of_hasDistinctKeys _ (hwell file hfile))
    (fun one hone other hother => agrees_of_agreesWith _ _ (hagree one hone other hother))
  have hpaths : valuesAt [a, b, c] [.text "watch", .text "paths"] =
      [.texts ["src"], .texts ["lib", "web"]] := by decide
  have hdebounce : valuesAt [a, b, c] [.text "watch", .text "debounce_ms"] = [.int 500, .int 50] := by decide
  refine ⟨hassoc, ?_, ?_⟩
  · obtain ⟨-, hvalues⟩ := hfound (.text "watch") [.text "paths"]
    rw [hpaths] at hvalues
    exact (hvalues _ List.mem_cons_self).2.1 rfl
  · obtain ⟨-, hvalues⟩ := hfound (.text "watch") [.text "debounce_ms"]
    rw [hdebounce] at hvalues
    exact (hvalues _ List.mem_cons_self).2.2 rfl

/-- A list and a text at one place: whether the lists are joined depends on the order of merging. -/
example :
    let a : Entries := [(.text "paths", .texts ["src"])]
    let b : Entries := [(.text "paths", .text "lib")]
    mergeOnto (mergeOnto a b) a ≠ mergeOnto a (mergeOnto b a) := by decide

end UtilityCss.Entries
