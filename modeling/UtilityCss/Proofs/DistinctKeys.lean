import UtilityCss.Config.Source
import UtilityCss.Yaml.Document
import UtilityCss.Proofs.Attempts
import UtilityCss.Proofs.Merging

/-!
# Distinct keys

The mappings of a configuration text have distinct keys. A mapping gets its entries by `Entries.define`, one
after the other, and every node that the reader makes is made of such nodes; those with anchors are too, so
that references and merged mappings bring in no others.
-/

namespace UtilityCss.Value
open Entries

theorem WellKeyed.define {entries : Entries} {key : Scalar} {v : Value}
    (h : (Value.mapping entries).WellKeyed) (hv : v.WellKeyed) :
    (Value.mapping (Entries.define key v entries)).WellKeyed := by
  refine .mapping (nodup_define h.keys) fun q w hw => ?_
  rw [valueOf?_define] at hw
  by_cases hq : key.identity = q.identity
  · rw [if_pos hq] at hw
    obtain rfl := Option.some.inj hw
    exact hv
  · rw [if_neg hq] at hw
    exact h.values hw

theorem wellKeyed_nil : (Value.mapping []).WellKeyed :=
  .mapping List.nodup_nil fun q v hv => by cases hv

end UtilityCss.Value

namespace UtilityCss.Yaml

namespace Node

/-! ### Nodes made of nodes -/

/-- Keys may be any nodes, since a key counts only as far as it is a scalar. -/
inductive Made : Node → Prop
  | text (tag : Tag) (text : String) : Made (Node.of tag (.text text))
  | items (tag : Tag) {nodes : List Node} (h : ∀ node ∈ nodes, Made node) :
      Made (Node.of tag (.items nodes))
  | entries (tag : Tag) {entries : List (Node × Node)}
      (h : ∀ entry ∈ entries, Made entry.2) : Made (Node.of tag (.entries entries))

def AllWellKeyed (entries : List (Node × Node)) : Prop := ∀ entry ∈ entries, entry.2.value.WellKeyed

theorem wellKeyed_foldl_define {entries : List (Node × Node)} (h : AllWellKeyed entries)
    {done : Entries} (hdone : (Value.mapping done).WellKeyed) :
    (Value.mapping (entries.foldl define done)).WellKeyed := by
  induction entries generalizing done with
  | nil => exact hdone
  | cons entry entries ih =>
    refine ih (fun other hother => h other (List.mem_cons_of_mem entry hother)) ?_
    rw [define]
    cases entry.1.keyOf with
    | error fault => exact hdone
    | ok key => exact hdone.define (h entry List.mem_cons_self)

theorem wellKeyed_mappingMeaning {content : Content Node}
    (h : ∀ entries, mergedOf content = .ok entries → AllWellKeyed entries) :
    (mappingMeaning content).value.WellKeyed := by
  rw [mappingMeaning]
  cases hmerged : mergedOf content with
  | error fault => exact Value.wellKeyed_nil
  | ok entries => exact wellKeyed_foldl_define (h entries hmerged) Value.wellKeyed_nil

theorem wellKeyed_scalarMeaning (tag : Tag) (content : Content Node) :
    (scalarMeaning tag content).value.WellKeyed := by
  simp only [scalarMeaning]
  split <;> exact .other rfl

theorem wellKeyed_of {tag : Tag} {content : Content Node}
    (h : ∀ entries, mergedOf content = .ok entries → AllWellKeyed entries) :
    (Node.of tag content).value.WellKeyed := by
  have hlist (meaning : Content Node → Meaning)
      (hmeaning : ∀ content, ∃ items, (meaning content).value = .list items) :
      (meaning content).value.WellKeyed := by
    obtain ⟨items, hitems⟩ := hmeaning content
    rw [hitems]
    exact .other rfl
  change (meaning tag content).value.WellKeyed
  cases tag with
  | mapping => exact wellKeyed_mappingMeaning h
  | list => exact hlist listMeaning fun content => by cases content <;> exact ⟨_, rfl⟩
  | omap | pairs => exact hlist pairsMeaning fun content => by cases content <;> exact ⟨_, rfl⟩
  | set =>
    have hvalue : ((setMeaning content).value).entries? = none := by
      simp only [setMeaning]
      cases (mappingMeaning content).value <;> rfl
    exact .other hvalue
  | merge | value | unknown => exact .other rfl
  | _ => exact wellKeyed_scalarMeaning _ content

structure Sound (node : Node) : Prop where
  value : node.value.WellKeyed
  merged : ∀ entries, node.merged = .ok entries → AllWellKeyed entries
  added : ∀ entries, node.added = .ok entries → AllWellKeyed entries

theorem allWellKeyed_of_mergedOf {entries : List (Node × Node)}
    (h : ∀ entry ∈ entries, entry.2.Sound) {merged : List (Node × Node)}
    (hmerged : mergedOf (.entries entries) = .ok merged) : AllWellKeyed merged := by
  simp only [mergedOf] at hmerged
  obtain ⟨all, hall, hmerged⟩ := bind_eq_ok.1 hmerged
  obtain rfl := Except.ok.inj hmerged
  intro entry hentry
  rcases List.mem_append.1 hentry with hentry | hentry
  · obtain ⟨group, hgroup, hentry⟩ := List.mem_flatten.1 hentry
    obtain ⟨source, hsource, hadded⟩ := (mem_mapM hall).1 hgroup
    exact (h source (List.mem_filter.1 hsource).1).added group hadded entry hentry
  · exact (h entry (List.mem_filter.1 hentry).1).value

theorem Made.sound {node : Node} (h : node.Made) : node.Sound := by
  induction h with
  | text tag text =>
    refine ⟨wellKeyed_of fun entries h => ?_, fun entries h => ?_, fun entries h => ?_⟩ <;> cases h
  | @items tag nodes _ ih =>
    refine ⟨wellKeyed_of fun entries h => ?_, fun entries h => ?_, fun entries h => ?_⟩
    · cases h
    · cases h
    · simp only [added, of, Node.content] at h
      obtain ⟨all, hall, h⟩ := bind_eq_ok.1 h
      obtain rfl := Except.ok.inj h
      intro entry hentry
      obtain ⟨group, hgroup, hentry⟩ := List.mem_flatten.1 hentry
      obtain ⟨source, hsource, hadded⟩ := (mem_mapM hall).1 (List.mem_reverse.1 hgroup)
      split at hadded
      · exact (ih source hsource).merged group hadded entry hentry
      · cases hadded
  | @entries tag entries _ ih =>
    have hmerged (merged : List (Node × Node)) (h : mergedOf (.entries entries) = .ok merged) :=
      allWellKeyed_of_mergedOf ih h
    exact ⟨wellKeyed_of hmerged, hmerged, hmerged⟩

end Node

/-! ### What the reader gives -/

namespace Feed

def Made (feed : Feed) : Prop := ∀ anchor ∈ feed.anchors, anchor.2.Made

variable {feed : Feed}

theorem Made.next (h : feed.Made) : feed.next.Made := h

theorem Made.remember (h : feed.Made) (anchor : Option String) {node : Node} (hnode : node.Made) :
    (feed.remember anchor node).Made := by
  cases anchor with
  | none => exact h
  | some name => exact List.forall_mem_cons.2 ⟨hnode, h⟩

theorem Made.find (h : feed.Made) {name : String} {node : Node} (hfind : feed.find name = .ok node) :
    node.Made := by
  rw [Feed.find] at hfind
  cases hlookup : feed.anchors.lookup name with
  | none =>
    rw [hlookup] at hfind
    cases hfind
  | some found =>
    rw [hlookup] at hfind
    obtain rfl := Except.ok.inj hfind
    obtain ⟨before, after, heq, -⟩ := List.lookup_eq_some_iff.1 hlookup
    exact h (name, found) (by rw [heq]; simp)

theorem Made.announce (h : feed.Made) {anchor : Option String} {node : Node} (hnode : node.Made)
    {later : Feed} (hlater : feed.announce anchor node = .ok later) : later.Made := by
  rw [Feed.announce] at hlater
  split at hlater
  · cases hlater
  · obtain rfl := Except.ok.inj hlater
    exact h.remember anchor hnode

theorem Made.properties (h : feed.Made) {found : Properties} {later : Feed}
    (hlater : properties feed = .ok (found, later)) : later.Made := by
  simp only [Yaml.properties] at hlater
  split at hlater
  · obtain ⟨-, rfl⟩ := Prod.mk.inj (Except.ok.inj hlater)
    exact h
  · split at hlater
    · cases hlater
    · obtain ⟨-, rfl⟩ := Prod.mk.inj (Except.ok.inj hlater)
      exact h

end Feed

def Gives {α : Type} (p : α → Prop) (r : Except Fault (α × Feed)) : Prop :=
  ∀ x feed, r = .ok (x, feed) → p x ∧ feed.Made

section Gives

variable {α β : Type} {p : α → Prop} {q : β → Prop}

theorem gives_error (fault : Fault) : Gives p (.error fault) := by
  intro x feed h
  cases h

theorem gives_ok {x : α} {feed : Feed} (hx : p x) (hfeed : feed.Made) : Gives p (.ok (x, feed)) := by
  intro y later h
  obtain ⟨rfl, rfl⟩ := Prod.mk.inj (Except.ok.inj h)
  exact ⟨hx, hfeed⟩

theorem Gives.bind {r : Except Fault (α × Feed)} {f : α × Feed → Except Fault (β × Feed)}
    (hr : Gives p r) (hf : ∀ x feed, p x → feed.Made → Gives q (f (x, feed))) : Gives q (r >>= f) := by
  intro y later h
  obtain ⟨⟨x, feed⟩, hx, h⟩ := bind_eq_ok.1 h
  obtain ⟨hp, hfeed⟩ := hr x feed hx
  exact hf x feed hp hfeed y later h

end Gives

theorem made_null : null.Made := .text .null ""

namespace Properties

variable (properties : Properties)

theorem made_opened (token : Option Token) : (properties.opened token).Made := by
  have hlist : (properties.list []).Made := .items _ (List.forall_mem_nil _)
  have hmapping : (properties.mapping []).Made := .entries _ (List.forall_mem_nil _)
  unfold opened
  split
  · exact hmapping
  · exact hmapping
  · exact hlist

theorem gives_nothing {feed : Feed} (h : feed.Made) : Gives Node.Made (properties.nothing feed) := by
  rw [nothing]
  split
  · exact gives_error _
  · exact gives_ok (.text _ _) h

end Properties

def AllMade (nodes : List Node) : Prop := ∀ node ∈ nodes, node.Made

def EntryMade (entry : Node × Node) : Prop := entry.2.Made

def EntriesMade (entries : List (Node × Node)) : Prop := ∀ entry ∈ entries, EntryMade entry

structure Reads (fuel : Nat) : Prop where
  value (block indentless : Bool) {feed : Feed} (h : feed.Made) :
    Gives Node.Made (Yaml.value fuel block indentless feed)
  content (block indentless : Bool) (properties : Properties) {feed : Feed} (h : feed.Made) :
    Gives Node.Made (Yaml.content fuel block indentless properties feed)
  optional (marks : List Token) (block indentless : Bool) {feed : Feed} (h : feed.Made) :
    Gives Node.Made (Yaml.optional fuel marks block indentless feed)
  items {done : List Node} (hdone : AllMade done) {feed : Feed} (h : feed.Made) :
    Gives AllMade (Yaml.items fuel done feed)
  indentlessItems {done : List Node} (hdone : AllMade done) {feed : Feed} (h : feed.Made) :
    Gives AllMade (Yaml.indentlessItems fuel done feed)
  keyPart (marks : List Token) (block : Bool) {feed : Feed} (h : feed.Made) :
    Gives Node.Made (Yaml.keyPart fuel marks block feed)
  valuePart (marks : List Token) (block : Bool) {feed : Feed} (h : feed.Made) :
    Gives Node.Made (Yaml.valuePart fuel marks block feed)
  pair (keyMarks marks : List Token) (block : Bool) {feed : Feed} (h : feed.Made) :
    Gives EntryMade (Yaml.pair fuel keyMarks marks block feed)
  entries {done : List (Node × Node)} (hdone : EntriesMade done) {feed : Feed} (h : feed.Made) :
    Gives EntriesMade (Yaml.entries fuel done feed)
  flowItems (first : Bool) {done : List Node} (hdone : AllMade done) {feed : Feed} (h : feed.Made) :
    Gives AllMade (Yaml.flowItems fuel first done feed)
  flowItem {feed : Feed} (h : feed.Made) : Gives Node.Made (Yaml.flowItem fuel feed)
  flowEntries (first : Bool) {done : List (Node × Node)} (hdone : EntriesMade done) {feed : Feed}
    (h : feed.Made) : Gives EntriesMade (Yaml.flowEntries fuel first done feed)
  flowPair {feed : Feed} (h : feed.Made) : Gives EntryMade (Yaml.flowPair fuel feed)

namespace Reads

theorem forall_mem_reverse {α : Type} {p : α → Prop} {xs : List α} (h : ∀ x ∈ xs, p x) :
    ∀ x ∈ xs.reverse, p x :=
  fun x hx => h x (List.mem_reverse.1 hx)

theorem zero : Reads 0 := by
  constructor
  all_goals
    intros
    exact gives_error .malformed

variable {fuel : Nat} (ih : Reads fuel) {feed : Feed} (h : feed.Made)

include ih h

theorem value_succ (block indentless : Bool) :
    Gives Node.Made (Yaml.value (fuel + 1) block indentless feed) := by
  rw [Yaml.value]
  split
  · intro node later hresult
    obtain ⟨found, hfound, hresult⟩ := bind_eq_ok.1 hresult
    obtain ⟨rfl, rfl⟩ := Prod.mk.inj (Except.ok.inj hresult)
    exact ⟨h.find hfound, h.next⟩
  · intro node later hresult
    obtain ⟨⟨properties, rest⟩, hproperties, hresult⟩ := bind_eq_ok.1 hresult
    obtain ⟨announced, hannounced, hresult⟩ := bind_eq_ok.1 hresult
    obtain ⟨⟨found, behind⟩, hcontent, hresult⟩ := bind_eq_ok.1 hresult
    obtain ⟨rfl, rfl⟩ := Prod.mk.inj (Except.ok.inj hresult)
    have hmade := (h.properties hproperties).announce (properties.made_opened _) hannounced
    obtain ⟨hnode, hbehind⟩ := ih.content block indentless properties hmade _ _ hcontent
    exact ⟨hnode, hbehind.remember _ hnode⟩

theorem content_succ (block indentless : Bool) (properties : Properties) :
    Gives Node.Made (Yaml.content (fuel + 1) block indentless properties feed) := by
  have hlist {r : Except Fault (List Node × Feed)} (hr : Gives AllMade r) :
      Gives Node.Made (r >>= fun p => .ok (properties.list p.1, p.2)) :=
    hr.bind fun items later hitems hlater => gives_ok (.items _ hitems) hlater
  have hmapping {r : Except Fault (List (Node × Node) × Feed)} (hr : Gives EntriesMade r) :
      Gives Node.Made (r >>= fun p => .ok (properties.mapping p.1, p.2)) :=
    hr.bind fun entries later hentries hlater => gives_ok (.entries _ hentries) hlater
  have hnothing := properties.gives_nothing h
  have hnil : AllMade [] := List.forall_mem_nil _
  have hnone : EntriesMade [] := List.forall_mem_nil _
  rw [Yaml.content]
  split
  · exact gives_ok (.text _ _) h.next
  · exact hlist (ih.flowItems true hnil h.next)
  · exact hmapping (ih.flowEntries true hnone h.next)
  · split
    · exact hlist (ih.items hnil h.next)
    · exact hnothing
  · split
    · exact hmapping (ih.entries hnone h.next)
    · exact hnothing
  · split
    · exact hlist (ih.indentlessItems hnil h)
    · exact hnothing
  · exact hnothing

theorem items_succ {done : List Node} (hdone : AllMade done) :
    Gives AllMade (Yaml.items (fuel + 1) done feed) := by
  rw [Yaml.items]
  split
  · cases hitem : Yaml.optional fuel endOfEntry true false feed.next with
    | error fault => exact gives_error fault
    | ok item =>
      obtain ⟨hnode, hlater⟩ := ih.optional endOfEntry true false h.next _ _ hitem
      exact ih.items (List.forall_mem_cons.2 ⟨hnode, hdone⟩) hlater
  · exact gives_ok (forall_mem_reverse hdone) h.next
  · exact gives_error _

theorem indentlessItems_succ {done : List Node} (hdone : AllMade done) :
    Gives AllMade (Yaml.indentlessItems (fuel + 1) done feed) := by
  rw [Yaml.indentlessItems]
  split
  · cases hitem : Yaml.optional fuel endOfIndentless true false feed.next with
    | error fault => exact gives_error fault
    | ok item =>
      obtain ⟨hnode, hlater⟩ := ih.optional endOfIndentless true false h.next _ _ hitem
      exact ih.indentlessItems (List.forall_mem_cons.2 ⟨hnode, hdone⟩) hlater
  · exact gives_ok (forall_mem_reverse hdone) h

theorem entries_succ {done : List (Node × Node)} (hdone : EntriesMade done) :
    Gives EntriesMade (Yaml.entries (fuel + 1) done feed) := by
  rw [Yaml.entries]
  split
  · exact gives_ok (forall_mem_reverse hdone) h.next
  · cases hpair : Yaml.pair fuel endOfPart endOfPart true feed with
    | error fault => exact gives_error fault
    | ok entry =>
      obtain ⟨hentry, hlater⟩ := ih.pair endOfPart endOfPart true h _ _ hpair
      exact ih.entries (List.forall_mem_cons.2 ⟨hentry, hdone⟩) hlater

theorem flowItems_succ (first : Bool) {done : List Node} (hdone : AllMade done) :
    Gives AllMade (Yaml.flowItems (fuel + 1) first done feed) := by
  have hmore {feed later : Feed} {node : Node} (h : feed.Made)
      (hitem : Yaml.flowItem fuel feed = .ok (node, later)) :
      Gives AllMade (Yaml.flowItems fuel false (node :: done) later) := by
    obtain ⟨hnode, hlater⟩ := ih.flowItem h _ _ hitem
    exact ih.flowItems false (List.forall_mem_cons.2 ⟨hnode, hdone⟩) hlater
  unfold Yaml.flowItems
  split
  · exact gives_ok (forall_mem_reverse hdone) h.next
  · split
    · exact gives_ok (forall_mem_reverse hdone) h.next.next
    · cases hitem : Yaml.flowItem fuel feed.next with
      | error fault => exact gives_error fault
      | ok item => exact hmore h.next hitem
  · cases hitem : Yaml.flowItem fuel feed with
    | error fault => exact gives_error fault
    | ok item => exact hmore h hitem
  · exact gives_error _

theorem flowEntries_succ (first : Bool) {done : List (Node × Node)} (hdone : EntriesMade done) :
    Gives EntriesMade (Yaml.flowEntries (fuel + 1) first done feed) := by
  have hmore {feed later : Feed} {entry : Node × Node} (h : feed.Made)
      (hpair : Yaml.flowPair fuel feed = .ok (entry, later)) :
      Gives EntriesMade (Yaml.flowEntries fuel false (entry :: done) later) := by
    obtain ⟨hentry, hlater⟩ := ih.flowPair h _ _ hpair
    exact ih.flowEntries false (List.forall_mem_cons.2 ⟨hentry, hdone⟩) hlater
  unfold Yaml.flowEntries
  split
  · exact gives_ok (forall_mem_reverse hdone) h.next
  · split
    · exact gives_ok (forall_mem_reverse hdone) h.next.next
    · cases hpair : Yaml.flowPair fuel feed.next with
      | error fault => exact gives_error fault
      | ok entry => exact hmore h.next hpair
  · cases hpair : Yaml.flowPair fuel feed with
    | error fault => exact gives_error fault
    | ok entry => exact hmore h hpair
  · exact gives_error _

theorem pair_succ (keyMarks marks : List Token) (block : Bool) :
    Gives EntryMade (Yaml.pair (fuel + 1) keyMarks marks block feed) := by
  rw [Yaml.pair]
  refine (ih.keyPart keyMarks block h).bind fun key later _ hlater => ?_
  exact (ih.valuePart marks block hlater).bind fun value last hvalue hlast => gives_ok hvalue hlast

omit h in
theorem succ : Reads (fuel + 1) where
  value block indentless _ h := value_succ ih h block indentless
  content block indentless properties _ h := content_succ ih h block indentless properties
  optional marks block indentless feed h := by
    rw [Yaml.optional]
    split
    · exact gives_ok made_null h
    · exact ih.value block indentless h
  items hdone _ h := items_succ ih h hdone
  indentlessItems hdone _ h := indentlessItems_succ ih h hdone
  keyPart marks block feed h := by
    rw [Yaml.keyPart]
    split
    · exact ih.optional marks block block h.next
    · exact gives_error _
  valuePart marks block feed h := by
    rw [Yaml.valuePart]
    split
    · exact ih.optional marks block block h.next
    · exact gives_ok made_null h
  pair keyMarks marks block _ h := pair_succ ih h keyMarks marks block
  entries hdone _ h := entries_succ ih h hdone
  flowItems first _ hdone _ h := flowItems_succ ih h first hdone
  flowItem {feed} h := by
    rw [Yaml.flowItem]
    split
    · refine (ih.pair _ _ false h).bind fun entry later hentry hlater => ?_
      exact gives_ok (.entries _ (List.forall_mem_singleton.2 hentry)) hlater
    · exact ih.value false false h
  flowEntries first _ hdone _ h := flowEntries_succ ih h first hdone
  flowPair {feed} h := by
    rw [Yaml.flowPair]
    split
    · exact ih.pair _ _ false h
    · exact (ih.value false false h).bind fun key later _ hlater => gives_ok made_null hlater

end Reads

theorem reads (fuel : Nat) : Reads fuel := by
  induction fuel with
  | zero => exact .zero
  | succ fuel ih => exact ih.succ

theorem made_of_preamble {done : Preamble} {tokens : List Token} {feed : Feed}
    (h : preamble done tokens = .ok feed) : feed.Made := by
  fun_induction preamble done tokens with
  | case1 done directive rest ih =>
    obtain ⟨added, hadded, h⟩ := bind_eq_ok.1 h
    exact ih added h
  | case2 done rest =>
    obtain rfl := Except.ok.inj h
    exact List.forall_mem_nil _
  | case3 => cases h

theorem gives_document (tokens : List Token) : Gives Node.Made (document tokens) := by
  have hfresh {tokens : List Token} : ({ tokens } : Feed).Made := List.forall_mem_nil _
  simp only [document]
  split
  · exact gives_ok made_null hfresh
  · split
    · intro node later h
      obtain ⟨feed, hfeed, h⟩ := bind_eq_ok.1 h
      have hmade := made_of_preamble hfeed
      split at h
      · exact gives_ok made_null hmade node later h
      · exact (reads _).value true false hmade node later h
    · exact (reads _).value true false hfresh

theorem wellKeyed_of_ofYaml {isWhole : Bool} {text : String} {v : Value}
    (h : Value.ofYaml isWhole text = .ok v) : v.WellKeyed := by
  simp only [Value.ofYaml] at h
  split at h
  · cases h
  · obtain ⟨-, -, h⟩ := bind_eq_ok.1 h
    obtain ⟨⟨node, feed⟩, hnode, h⟩ := bind_eq_ok.1 h
    obtain ⟨-, -, h⟩ := bind_eq_ok.1 h
    have hmade := (gives_document _ node feed hnode).1
    rw [Node.result] at h
    split at h
    · obtain rfl := Except.ok.inj h
      exact hmade.sound.value
    · cases h

/-- No mapping that is read has a key twice. -/
def Reader.Keyed (reader : Reader) : Prop := ∀ text value, reader true text = .ok value → value.WellKeyed

theorem keyed_ofYaml : Reader.Keyed Value.ofYaml := fun _ _ => wellKeyed_of_ofYaml

end UtilityCss.Yaml

namespace UtilityCss.Config

theorem wellKeyed_of_readFile {reader : Yaml.Reader} (hkeyed : reader.Keyed) {space : Workspace} {path : Path}
    {config : Entries}
    (h : readFile reader space path = .ok config) : (Value.mapping config).WellKeyed := by
  rw [readFile] at h
  split at h
  · cases h
  · rw [ofBytes] at h
    split at h
    · cases h
    · split at h
      · rename_i v hv
        simp only [ofValue] at h
        split at h
        · obtain rfl := Except.ok.inj h
          exact Value.wellKeyed_nil
        · split at h
          · obtain rfl := Except.ok.inj h
            exact hkeyed _ _ hv
          · cases h
      · cases h

end UtilityCss.Config
