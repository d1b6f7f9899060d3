import UtilityCss.Files.Glob
import UtilityCss.Proofs.Attempts
import UtilityCss.Proofs.ClassAttribute
import UtilityCss.Proofs.ProperTrees

/-!
# What the parts of a pattern stand for

A pattern has two readings. In a search a double star stands for any number of folders; compared with the end
of a path it stands for one name. Both readings are one relation between parts and names, so that they agree
wherever the number of names makes no difference, as it does not for the double stars a pattern begins with.
-/

namespace UtilityCss

namespace Text

theorem mentions_singleton {c : Char} {cs : List Char} : mentions [c] cs = true ↔ c ∈ cs := by
  induction cs with
  | nil => simp [mentions]
  | cons d cs ih => simp [mentions, ih, List.isPrefixOf]

end Text

namespace Glob

/-! ### Names -/

theorem fits_literals (cs ds : List Char) : fits (cs.map .literal) ds = true ↔ ds = cs := by
  induction cs generalizing ds with
  | nil => simp [fits]
  | cons c cs ih =>
    cases ds with
    | nil => simp [fits]
    | cons d ds => simp [fits, Item.accepts, ih]

theorem itemsFrom_of_none {cs : List Char} (h : cs.any ['*', '?', '['].contains = false) :
    itemsFrom 0 cs = cs.map .literal := by
  induction cs with
  | nil => rfl
  | cons c cs ih =>
    rw [List.any_cons, Bool.or_eq_false_iff] at h
    simp only [List.contains_cons, List.contains_nil, Bool.or_false,
      Bool.or_eq_false_iff, beq_eq_false_iff_ne, ne_eq] at h
    rw [itemsFrom, if_neg h.1.1, if_neg h.1.2.1, if_neg h.1.2.2, ih h.2, List.map_cons]

theorem matchesName_of_not_isWildcard {pattern : String} (h : isWildcard pattern = false)
    (name : String) : matchesName pattern name = true ↔ name = pattern := by
  rw [matchesName_eq, items, itemsFrom_of_none h, fits_literals, String.toList_inj]

theorem matchesName_doubleStar (name : String) : matchesName "**" name = true := by
  have hone (cs : List Char) : fits [.many] cs = true := by
    induction cs with
    | nil => simp [fits]
    | cons c cs ih => rw [fits, ih, Bool.or_true]
  have hitems : items "**" = [.many, .many] := by decide
  rw [matchesName_eq, hitems]
  cases name.toList with
  | nil => simp [fits]
  | cons c cs => rw [fits, hone, Bool.true_or]

/-! ### Parts -/

def Part.Accepts (name : String) : Part → Prop
  | .exact wanted => name = wanted
  | .wildcard pattern => matchesName pattern name = true
  | .doubleStar | .finish => False

/-- Parts lead along names when each part accepts its name and a double star stands for as many names as it
may. -/
inductive Leads (spans : Nat → Prop) : List Part → List String → Prop
  | nil : Leads spans [] []
  | finish (parts : List Part) : Leads spans (.finish :: parts) []
  | name {part : Part} {name : String} {parts : List Part} {names : List String}
      (accepts : part.Accepts name) (rest : Leads spans parts names) :
      Leads spans (part :: parts) (name :: names)
  | doubleStar {folders : List String} {parts : List Part} {names : List String}
      (spanned : spans folders.length) (rest : Leads spans parts names) :
      Leads spans (.doubleStar :: parts) (folders ++ names)

theorem partOf_eq_ok {part : String} {read : Part} (h : partOf part = .ok read) :
    (part = "**" ∧ read = .doubleStar) ∨ (part ≠ "**" ∧ isWildcard part = true ∧ read = .wildcard part) ∨
      (part ≠ "**" ∧ isWildcard part = false ∧ read = .exact part) := by
  rw [partOf] at h
  split at h
  · rename_i hstars
    exact .inl ⟨hstars, (Except.ok.inj h).symm⟩
  · rename_i hstars
    split at h
    · cases h
    · split at h
      · rename_i hwild
        exact .inr (.inl ⟨hstars, hwild, (Except.ok.inj h).symm⟩)
      · rename_i hwild
        exact .inr (.inr ⟨hstars, Bool.eq_false_iff.2 hwild, (Except.ok.inj h).symm⟩)

theorem matchesName_iff_accepts {part : String} {read : Part} (h : partOf part = .ok read)
    (name : String) : matchesName part name = true ↔ read = .doubleStar ∨ read.Accepts name := by
  obtain ⟨rfl, rfl⟩ | ⟨-, -, rfl⟩ | ⟨-, hexact, rfl⟩ := partOf_eq_ok h
  · simp [matchesName_doubleStar]
  · simp [Part.Accepts]
  · simp [Part.Accepts, matchesName_of_not_isWildcard hexact]

variable {spans : Nat → Prop} {parts : List Part} {names : List String}

theorem leads_nil : Leads spans [] names ↔ names = [] := by
  constructor
  · rintro ⟨⟩
    rfl
  · rintro rfl
    exact .nil

theorem leads_one {patterns : List String} (h : patterns.mapM partOf = .ok parts) :
    Leads (· = 1) parts names ↔
      List.Forall₂ (fun pattern name => matchesName pattern name = true) patterns names := by
  induction mapM_eq_ok.1 h generalizing names with
  | nil => rw [leads_nil, List.forall₂_nil_left_iff]
  | @cons pattern part patterns parts hpart hrest ih =>
    replace ih {names : List String} := @ih names (mapM_eq_ok.2 hrest)
    rw [List.forall₂_cons_left_iff]
    simp only [matchesName_iff_accepts hpart]
    constructor
    · intro hleads
      cases hleads with
      | finish => rcases partOf_eq_ok hpart with h | h | h <;> simp at h
      | name accepts rest => exact ⟨_, _, .inr accepts, ih.1 rest, rfl⟩
      | doubleStar spanned rest =>
        obtain ⟨folder, rfl⟩ := List.length_eq_one_iff.1 spanned
        exact ⟨folder, _, .inl rfl, ih.1 rest, rfl⟩
    · rintro ⟨name, rest, rfl | haccepts, hforall, rfl⟩
      · exact @Leads.doubleStar _ [name] _ _ rfl (ih.2 hforall)
      · exact .name haccepts (ih.2 hforall)

theorem exists_of_leads_stars {k : Nat} (h : Leads spans (List.replicate k .doubleStar ++ parts) names) :
    ∃ folders rest, names = folders ++ rest ∧ Leads spans parts rest := by
  induction k generalizing names with
  | zero => exact ⟨[], names, rfl, h⟩
  | succ k ih =>
    rw [List.replicate_succ, List.cons_append] at h
    cases h with
    | name accepts => cases accepts
    | @doubleStar first _ names spanned hrest =>
      obtain ⟨folders, rest, rfl, hleads⟩ := ih hrest
      exact ⟨first ++ folders, rest, (List.append_assoc ..).symm, hleads⟩

theorem Leads.change (h : Leads spans parts names) (spans' : Nat → Prop)
    (hstars : .doubleStar ∉ parts) {front : List Part} (hfront : parts = front ∨ parts = front ++ [.finish])
    (hfinish : .finish ∉ front) : Leads spans' front names := by
  induction h generalizing front with
  | nil =>
    rcases hfront with rfl | hfront
    · exact .nil
    · simp at hfront
  | finish parts =>
    rcases hfront with rfl | hfront
    · simp at hfinish
    · cases front with
      | nil => exact .nil
      | cons part front =>
        obtain ⟨rfl, -⟩ := List.cons.inj hfront
        simp at hfinish
  | @name part name parts names accepts rest ih =>
    have hparts : .doubleStar ∉ parts := fun h => hstars (List.mem_cons_of_mem part h)
    cases front with
    | nil =>
      rcases hfront with hfront | hfront
      · cases hfront
      · obtain ⟨rfl, -⟩ := List.cons.inj hfront
        cases accepts
    | cons first front =>
      simp only [List.cons_append, List.cons.injEq, ← and_or_left] at hfront
      obtain ⟨rfl, hfront⟩ := hfront
      exact .name accepts (ih hparts hfront fun h => hfinish (List.mem_cons_of_mem _ h))
  | doubleStar => simp at hstars

theorem leads_replicate {stars : List String} (h : Leads (· = 1) parts names) :
    Leads (· = 1) (List.replicate stars.length .doubleStar ++ parts) (stars ++ names) := by
  induction stars with
  | nil => exact h
  | cons star stars ih => exact @Leads.doubleStar _ [star] _ _ rfl ih

/-! ### The end of a path -/

theorem matchesEnd_iff {patterns names : List String} :
    matchesEnd patterns names = true ↔ ∃ first rest, names = first ++ rest ∧
      List.Forall₂ (fun pattern name => matchesName pattern name = true) patterns first := by
  induction patterns generalizing names with
  | nil => simp [matchesEnd]
  | cons pattern patterns ih =>
    cases names with
    | nil => simp [matchesEnd]
    | cons name names =>
      rw [matchesEnd, Bool.and_eq_true, ih]
      constructor
      · rintro ⟨hname, first, rest, rfl, hfirst⟩
        exact ⟨name :: first, rest, rfl, .cons hname hfirst⟩
      · rintro ⟨first, rest, hnames, hfirst⟩
        cases hfirst with
        | cons hname hfirst =>
          obtain ⟨rfl, rfl⟩ := List.cons.inj hnames
          exact ⟨hname, _, rest, rfl, hfirst⟩

theorem matchesEnd_reverse {patterns names : List String} :
    matchesEnd patterns.reverse names.reverse = true ↔ ∃ front last, names = front ++ last ∧
      List.Forall₂ (fun pattern name => matchesName pattern name = true) patterns last := by
  rw [matchesEnd_iff]
  constructor
  · rintro ⟨first, rest, hnames, hfirst⟩
    refine ⟨rest.reverse, first.reverse, ?_, List.forall₂_reverse_iff.1 ?_⟩
    · rw [← List.reverse_append, ← hnames, List.reverse_reverse]
    · rwa [List.reverse_reverse]
  · rintro ⟨front, last, rfl, hlast⟩
    exact ⟨last.reverse, front.reverse, List.reverse_append, List.forall₂_reverse_iff.2 hlast⟩

/-- The last names of a path are as a pattern says, with each double star standing for one name. -/
def FitsEnd (pattern : String) (names : List String) : Prop :=
  ∃ parts front last, (Path.ofText pattern).parts.mapM partOf = .ok parts ∧ parts ≠ [] ∧
    names = front ++ last ∧ Leads (· = 1) parts last

/-- A pattern that is compared with paths, but has no part to compare. -/
def Nameless (pattern : String) : Prop :=
  isPathPattern pattern = true ∧ (Path.ofText pattern).parts = []

theorem partsOf_eq_ok {pattern : String} (h : partsOf pattern = .ok parts) :
    (Path.ofText pattern).isAbsolute = false ∧ ∃ front,
      (Path.ofText pattern).parts.mapM partOf = .ok front ∧
      (parts = front ∨ parts = front ++ [.finish]) := by
  rw [partsOf] at h
  cases habsolute : (Path.ofText pattern).isAbsolute with
  | true =>
    rw [habsolute] at h
    cases h
  | false =>
    rw [habsolute] at h
    obtain ⟨front, hfront, h⟩ := bind_eq_ok.1 h
    refine ⟨rfl, front, hfront, ?_⟩
    split at h
    · exact .inr (Except.ok.inj h).symm
    · exact .inl (Except.ok.inj h).symm

theorem mem_parts_of_exact {pattern name : String} (h : partsOf pattern = .ok parts)
    (hname : .exact name ∈ parts) : name ∈ (Path.ofText pattern).parts := by
  obtain ⟨-, front, hfront, hparts⟩ := partsOf_eq_ok h
  have hmem : .exact name ∈ front := by
    rcases hparts with rfl | rfl
    · exact hname
    · simpa using hname
  obtain ⟨part, hpart, hexact⟩ := (mem_mapM hfront).1 hmem
  rcases partOf_eq_ok hexact with ⟨-, h⟩ | ⟨-, -, h⟩ | ⟨-, -, h⟩
  · cases h
  · cases h
  · exact Part.exact.inj h ▸ hpart

theorem fitsEnd_iff {pattern : String} {front : List Part}
    (h : (Path.ofText pattern).parts.mapM partOf = .ok front) {names : List String} :
    FitsEnd pattern names ↔ (Path.ofText pattern).parts ≠ [] ∧
      matchesEnd (Path.ofText pattern).parts.reverse names.reverse = true := by
  have hnil : front = [] ↔ (Path.ofText pattern).parts = [] := by
    have hlength := (mapM_eq_ok.1 h).length_eq
    rw [← List.length_eq_zero_iff, ← List.length_eq_zero_iff, hlength]
  rw [matchesEnd_reverse]
  constructor
  · rintro ⟨parts, first, last, hparts, hne, rfl, hleads⟩
    obtain rfl := Except.ok.inj (h.symm.trans hparts)
    exact ⟨mt hnil.2 hne, first, last, rfl, (leads_one h).1 hleads⟩
  · rintro ⟨hne, first, last, rfl, hforall⟩
    exact ⟨front, first, last, h, mt hnil.1 hne, rfl, (leads_one h).2 hforall⟩

theorem parts_of_not_isPathPattern {pattern : String} (h : isPathPattern pattern = false) :
    (Path.ofText pattern).parts = if Path.isMeaningful pattern then [pattern] else [] := by
  have hslash : '/' ∉ pattern.toList := by
    rw [← Text.mentions_singleton]
    simp [(Bool.or_eq_false_iff.1 h).2]
  have hpieces : Text.pieces (· == '/') pattern.toList = [pattern.toList] :=
    Text.pieces_of_none fun c hc => beq_eq_false_iff_ne.2 fun heq => hslash (heq ▸ hc)
  simp only [Path.ofText, Path.partsOf, hpieces, List.map_singleton, String.ofList_toList,
    List.filter_singleton, Bool.cond_eq_ite]

theorem isWildcard_of_not_isMeaningful {pattern : String} (h : Path.isMeaningful pattern = false) :
    isWildcard pattern = false := by
  rw [Path.isMeaningful, Bool.and_eq_false_iff, decide_eq_false_iff_not, decide_eq_false_iff_not,
    not_not, not_not] at h
  rcases h with rfl | rfl <;> decide

theorem isMeaningful_of_matchesName {pattern name : String} (hname : Path.IsName name)
    (h : matchesName pattern name = true) : Path.isMeaningful pattern = true := by
  by_contra hpattern
  rw [Bool.not_eq_true] at hpattern
  rw [matchesName_of_not_isWildcard (isWildcard_of_not_isMeaningful hpattern)] at h
  rw [← h, hname.meaningful] at hpattern
  cases hpattern

variable (front : Location) {name : String}

theorem fitsEnd_of_not_isPathPattern {pattern : String} (hpath : isPathPattern pattern = false)
    {parts : List Part} (haccepted : (Path.ofText pattern).parts.mapM partOf = .ok parts)
    (hname : Path.IsName name) :
    FitsEnd pattern (front ++ [name]) ↔ matchesName pattern name = true := by
  rw [fitsEnd_iff haccepted, parts_of_not_isPathPattern hpath]
  constructor
  · rintro ⟨hne, hmatches⟩
    split at hne
    · rename_i hmeaningful
      simpa [hmeaningful, matchesEnd] using hmatches
    · exact absurd rfl hne
  · intro hmatches
    simp [isMeaningful_of_matchesName hname hmatches, matchesEnd, hmatches]

theorem matchesOne_cases {pattern : String} (haccepted : ∃ parts, partsOf pattern = .ok parts)
    (hname : Path.IsName name) :
    (Nameless pattern ∧ matchesOne (Path.ofLocation (front ++ [name])) pattern = .error .empty) ∨
    (¬ Nameless pattern ∧ ∃ fits, matchesOne (Path.ofLocation (front ++ [name])) pattern = .ok fits ∧
      (fits = true ↔ FitsEnd pattern ("/" :: (front ++ [name])))) := by
  obtain ⟨parts, hparts⟩ := haccepted
  obtain ⟨habsolute, read, hread, -⟩ := partsOf_eq_ok hparts
  rw [matchesOne]
  cases hpath : isPathPattern pattern with
  | false =>
    refine .inr ⟨fun h => by simp [Nameless, hpath] at h, _, rfl, ?_⟩
    rw [← List.cons_append, fitsEnd_of_not_isPathPattern _ hpath hread hname]
    simp [Path.name, Path.ofLocation]
  | true =>
    rw [if_pos rfl, matchesPath]
    simp only [habsolute, Bool.false_eq_true, if_false]
    by_cases hnil : (Path.ofText pattern).parts = []
    · exact .inl ⟨⟨hpath, hnil⟩, if_pos (by rw [hnil]; rfl)⟩
    · refine .inr ⟨fun h => hnil h.2, _, if_neg (by simpa using hnil), ?_⟩
      rw [fitsEnd_iff hread]
      simp only [ne_eq, hnil, not_false_eq_true, true_and]
      rfl

theorem matchesAny_of_not_isPathPattern {patterns : List String} (path : Path)
    (h : ∀ pattern ∈ patterns, isPathPattern pattern = false) :
    matchesAny path patterns = .ok (patterns.any fun pattern => matchesName pattern path.name) := by
  induction patterns with
  | nil => rfl
  | cons pattern patterns ih =>
    have hone : matchesOne path pattern = .ok (matchesName pattern path.name) := by
      rw [matchesOne, h pattern List.mem_cons_self, if_neg Bool.false_ne_true]
    rw [matchesAny, hone, ih fun other hother => h other (List.mem_cons_of_mem pattern hother)]
    cases hfits : matchesName pattern path.name <;> simp [bind, Except.bind, hfits]

theorem matchesAny_eq_true {patterns : List String}
    (haccepted : ∀ pattern ∈ patterns, ∃ parts, partsOf pattern = .ok parts)
    (hname : Path.IsName name) :
    matchesAny (Path.ofLocation (front ++ [name])) patterns = .ok true ↔
      ∃ before pattern after, patterns = before ++ pattern :: after ∧
        (∀ other ∈ before, ¬ Nameless other) ∧ FitsEnd pattern ("/" :: (front ++ [name])) := by
  induction patterns with
  | nil => simp [matchesAny]
  | cons first patterns ih =>
    replace ih := ih fun pattern hpattern => haccepted pattern (List.mem_cons_of_mem first hpattern)
    have hfirst := matchesOne_cases front (haccepted first List.mem_cons_self) hname
    rw [matchesAny]
    constructor
    · intro h
      obtain ⟨fits, hfits, h⟩ := bind_eq_ok.1 h
      obtain ⟨-, herror⟩ | ⟨hnameless, fits', hfits', hiff⟩ := hfirst
      · rw [herror] at hfits
        cases hfits
      · obtain rfl := Except.ok.inj (hfits.symm.trans hfits')
        cases fits with
        | true => exact ⟨[], first, patterns, rfl, by simp, hiff.1 rfl⟩
        | false =>
          obtain ⟨before, pattern, after, rfl, hbefore, hend⟩ := ih.1 h
          refine ⟨first :: before, pattern, after, rfl, ?_, hend⟩
          exact List.forall_mem_cons.2 ⟨hnameless, hbefore⟩
    · rintro ⟨before, pattern, after, hpatterns, hbefore, hend⟩
      obtain ⟨hnameless, -⟩ | ⟨hnameless, fits, hfits, hiff⟩ := hfirst
      · cases before with
        | nil =>
          obtain ⟨rfl, rfl⟩ := List.cons.inj hpatterns
          obtain ⟨parts, _, _, hparts, hne, -⟩ := hend
          rw [hnameless.2] at hparts
          exact absurd (Except.ok.inj hparts).symm hne
        | cons other before =>
          obtain ⟨rfl, rfl⟩ := List.cons.inj hpatterns
          exact absurd hnameless (hbefore first List.mem_cons_self)
      · rw [hfits]
        cases fits with
        | true => rfl
        | false =>
          cases before with
          | nil =>
            obtain ⟨rfl, rfl⟩ := List.cons.inj hpatterns
            cases hiff.2 hend
          | cons other before =>
            obtain ⟨rfl, rfl⟩ := List.cons.inj hpatterns
            exact ih.2 ⟨before, pattern, after, rfl,
              fun q hq => hbefore q (List.mem_cons_of_mem first hq), hend⟩

/-! ### Double stars at the beginning -/

theorem mapM_partOf_stars {k : Nat} {rest : List String} {read : List Part}
    (h : (List.replicate k "**" ++ rest).mapM partOf = .ok read) (hrest : "**" ∉ rest) :
    ∃ more, read = List.replicate k .doubleStar ++ more ∧ rest.mapM partOf = .ok more ∧
      .doubleStar ∉ more := by
  induction k generalizing read with
  | zero =>
    refine ⟨read, rfl, h, fun hmem => ?_⟩
    obtain ⟨part, hpart, hdouble⟩ := (mem_mapM h).1 hmem
    rcases partOf_eq_ok hdouble with ⟨rfl, -⟩ | ⟨-, -, hread⟩ | ⟨-, -, hread⟩
    · exact hrest hpart
    · cases hread
    · cases hread
  | succ k ih =>
    rw [List.replicate_succ, List.cons_append, List.mapM_cons] at h
    obtain ⟨first, hfirst, h⟩ := bind_eq_ok.1 h
    obtain ⟨others, hothers, h⟩ := bind_eq_ok.1 h
    obtain rfl := Except.ok.inj h
    obtain ⟨more, rfl, hmore⟩ := ih hothers
    obtain rfl : Part.doubleStar = first := Except.ok.inj hfirst
    exact ⟨more, rfl, hmore⟩

/-- The double stars of a pattern stand at its beginning, and there are no more than `most`. No part of it leads
up again. -/
def StarsFirst (most : Nat) (pattern : String) : Prop :=
  (Path.ofText pattern).parts ≠ [] ∧ ".." ∉ (Path.ofText pattern).parts ∧
    ∃ k ≤ most, ∃ rest, (Path.ofText pattern).parts = List.replicate k "**" ++ rest ∧ "**" ∉ rest

theorem fitsEnd_of_starsFirst {pattern : String} {front : List String} {read : List Part}
    (hpattern : StarsFirst front.length pattern) (hread : partsOf pattern = .ok read)
    (h : Leads spans (.doubleStar :: read) names) : FitsEnd pattern (front ++ names) := by
  obtain ⟨hne, -, k, hk, rest, hpattern, hrest⟩ := hpattern
  obtain ⟨-, parts, hparts, hfinish⟩ := partsOf_eq_ok hread
  have hlength := (mapM_eq_ok.1 hparts).length_eq
  rw [hpattern] at hparts
  obtain ⟨more, rfl, hmore, hstars⟩ := mapM_partOf_stars hparts hrest
  have hnofinish : .finish ∉ more := fun hmem => by
    obtain ⟨part, -, hpart⟩ := (mem_mapM hmore).1 hmem
    rcases partOf_eq_ok hpart with h | h | h <;> simp at h
  -- the last names are those of the parts behind the double stars
  have hlast : ∃ folders last, names = folders ++ last ∧ Leads (· = 1) more last := by
    have hsplit : .doubleStar :: read = List.replicate (k + 1) .doubleStar ++ more ∨
        .doubleStar :: read = List.replicate (k + 1) .doubleStar ++ (more ++ [.finish]) := by
      rcases hfinish with rfl | rfl
      · exact .inl rfl
      · exact .inr (by simp [List.replicate_succ])
    rcases hsplit with heq | heq
    · obtain ⟨folders, last, rfl, hleads⟩ := exists_of_leads_stars (heq ▸ h)
      exact ⟨folders, last, rfl, hleads.change _ hstars (.inl rfl) hnofinish⟩
    · obtain ⟨folders, last, rfl, hleads⟩ := exists_of_leads_stars (heq ▸ h)
      exact ⟨folders, last, rfl, hleads.change _ (by simpa using hstars) (.inr rfl) hnofinish⟩
  obtain ⟨folders, last, rfl, hleads⟩ := hlast
  obtain ⟨first, stars, hfolders, hstars⟩ :
      ∃ first stars, front ++ folders = first ++ stars ∧ stars.length = k := by
    refine ⟨_, _, (List.take_append_drop ((front ++ folders).length - k) _).symm, ?_⟩
    rw [List.length_drop, List.length_append]
    omega
  refine ⟨_, first, stars ++ last, hpattern ▸ hparts, ?_, ?_, hstars ▸ leads_replicate hleads⟩
  · intro hnil
    rw [hnil, List.length_nil, List.length_eq_zero_iff] at hlength
    exact hne hlength
  · rw [← List.append_assoc, hfolders, List.append_assoc]

end Glob

end UtilityCss
