import UtilityCss.Proofs.Equivariance

/-!
# The grammar of tokens

A token is written as variants and a base, each followed by a colon but the last, and the base as a name with a
sign and the class prefix before it. The grammar says so without the readers of `Token`: which colons divide a
text, and how a base may be spelled. What is read is exactly what the grammar writes, in one way only.
-/

namespace UtilityCss.Token
open Text

/-! ### Colons -/

def openBrackets (text : String) : Nat :=
  text.toList.foldl (fun depth c => if c = '[' then depth + 1 else if c = ']' then depth - 1 else depth) 0

/-- The parts of a text: colons join them to the text, and these are the colons outside brackets. -/
structure Divides (text : String) (parts : List String) : Prop where
  ne : parts ≠ []
  joined : ":".intercalate parts = text
  colons {before after : String} (h : text = before ++ ":" ++ after) : openBrackets before = 0 ↔
    ∃ front back, front ≠ [] ∧ back ≠ [] ∧ parts = front ++ back ∧ before = ":".intercalate front

def Leading (parts : List (List Char)) (before : List Char) : Prop :=
  ∃ front back, front ≠ [] ∧ back ≠ [] ∧ parts = front ++ back ∧ before = [':'].intercalate front

structure DividesAt (depth : Nat) (cs : List Char) (parts : List (List Char)) : Prop where
  ne : parts ≠ []
  joined : [':'].intercalate parts = cs
  colons {before after : List Char} (h : cs = before ++ ':' :: after) :
    before.foldl depthAfter depth = 0 ↔ Leading parts before

section Leading

variable {part : List Char} {parts : List (List Char)} {before : List Char} {c : Char}

theorem leading_nil_cons (hne : parts ≠ []) :
    Leading ([] :: parts) before ↔ before = [] ∨ ∃ rest, before = ':' :: rest ∧ Leading parts rest := by
  constructor
  · rintro ⟨front, back, hfront, hback, hparts, rfl⟩
    obtain ⟨first, front, rfl⟩ := List.exists_cons_of_ne_nil hfront
    obtain ⟨rfl, rfl⟩ := List.cons.inj hparts
    cases front with
    | nil => exact .inl rfl
    | cons next front =>
      refine .inr ⟨_, by rw [List.intercalate_cons_cons]; rfl, next :: front, back, ?_, hback, rfl, rfl⟩
      exact List.cons_ne_nil next front
  · rintro (rfl | ⟨rest, rfl, front, back, hfront, hback, rfl, rfl⟩)
    · exact ⟨[[]], parts, List.cons_ne_nil _ _, hne, rfl, rfl⟩
    · obtain ⟨first, front, rfl⟩ := List.exists_cons_of_ne_nil hfront
      refine ⟨[] :: first :: front, back, List.cons_ne_nil _ _, hback, rfl, ?_⟩
      rw [List.intercalate_cons_cons]
      rfl

theorem leading_cons_cons :
    Leading ((c :: part) :: parts) before ↔ ∃ rest, before = c :: rest ∧ Leading (part :: parts) rest := by
  have hjoin (front : List (List Char)) :
      [':'].intercalate ((c :: part) :: front) = c :: [':'].intercalate (part :: front) := by
    cases front with
    | nil => simp
    | cons next front => simp [List.intercalate_cons_cons]
  constructor
  · rintro ⟨front, back, hfront, hback, hparts, rfl⟩
    obtain ⟨first, front, rfl⟩ := List.exists_cons_of_ne_nil hfront
    obtain ⟨rfl, rfl⟩ := List.cons.inj hparts
    exact ⟨_, hjoin front, part :: front, back, List.cons_ne_nil _ _, hback, rfl, rfl⟩
  · rintro ⟨rest, rfl, front, back, hfront, hback, hparts, rfl⟩
    obtain ⟨first, front, rfl⟩ := List.exists_cons_of_ne_nil hfront
    obtain ⟨rfl, rfl⟩ := List.cons.inj hparts
    exact ⟨(c :: part) :: front, back, List.cons_ne_nil _ _, hback, rfl, (hjoin front).symm⟩

end Leading

section DividesAt

variable {depth : Nat} {c d : Char} {cs part : List Char} {parts : List (List Char)}

theorem dividesAt_nil : DividesAt depth [] parts ↔ parts = [[]] := by
  constructor
  · rintro ⟨hne, hjoined, -⟩
    obtain ⟨part, parts, rfl⟩ := List.exists_cons_of_ne_nil hne
    cases parts with
    | nil => simpa using hjoined
    | cons next parts => simp [List.intercalate_cons_cons] at hjoined
  · rintro rfl
    refine ⟨List.cons_ne_nil _ _, by simp, fun h => ?_⟩
    simp at h

theorem dividesAt_cons_nil :
    DividesAt depth (c :: cs) ([] :: parts) ↔ c = ':' ∧ depth = 0 ∧ DividesAt 0 cs parts := by
  have hshift {before after : List Char} (h : cs = before ++ ':' :: after) :
      ':' :: cs = (':' :: before) ++ ':' :: after := congrArg (':' :: ·) h
  have hlead (hne : parts ≠ []) (before : List Char) :
      Leading ([] :: parts) (':' :: before) ↔ Leading parts before := by
    simp [leading_nil_cons hne]
  constructor
  · rintro ⟨-, hjoined, hcolons⟩
    cases parts with
    | nil => simp at hjoined
    | cons next parts =>
      have hne : next :: parts ≠ [] := List.cons_ne_nil next parts
      rw [List.intercalate_cons_cons] at hjoined
      obtain ⟨rfl, rfl⟩ := List.cons.inj hjoined
      have hdepth : depth = 0 := (hcolons rfl).2 ((leading_nil_cons hne).2 (.inl rfl))
      subst hdepth
      exact ⟨rfl, rfl, hne, rfl, fun h => (hcolons (hshift h)).trans (hlead hne _)⟩
  · rintro ⟨rfl, rfl, hne, hjoined, hcolons⟩
    refine ⟨List.cons_ne_nil _ _, ?_, ?_⟩
    · obtain ⟨next, others, rfl⟩ := List.exists_cons_of_ne_nil hne
      rw [List.intercalate_cons_cons, hjoined]
      rfl
    · intro before after h
      cases before with
      | nil => simp [leading_nil_cons hne]
      | cons d before =>
        obtain ⟨rfl, hrest⟩ := List.cons.inj h
        exact (hcolons hrest).trans (hlead hne before).symm

theorem dividesAt_cons_cons :
    DividesAt depth (c :: cs) ((d :: part) :: parts) ↔
      d = c ∧ ¬(c = ':' ∧ depth = 0) ∧ DividesAt (depthAfter depth c) cs (part :: parts) := by
  have hlead (before : List Char) :
      Leading ((c :: part) :: parts) (c :: before) ↔ Leading (part :: parts) before := by
    simp [leading_cons_cons]
  have hjoin : [':'].intercalate ((c :: part) :: parts) = c :: [':'].intercalate (part :: parts) := by
    cases parts <;> simp [List.intercalate_cons_cons]
  constructor
  · rintro ⟨-, hjoined, hcolons⟩
    have hd : d = c := by
      cases parts <;> simp [List.intercalate_cons_cons] at hjoined <;> exact hjoined.1
    subst hd
    refine ⟨rfl, ?_, List.cons_ne_nil _ _, (List.cons.inj (hjoin.symm.trans hjoined)).2, ?_⟩
    · rintro ⟨rfl, rfl⟩
      obtain ⟨rest, hrest, -⟩ := leading_cons_cons.1 ((@hcolons [] _ rfl).1 rfl)
      cases hrest
    · intro before after h
      exact (@hcolons (d :: before) _ (congrArg (d :: ·) h)).trans (hlead before)
  · rintro ⟨rfl, hinside, -, hjoined, hcolons⟩
    refine ⟨List.cons_ne_nil _ _, hjoin.trans (congrArg (d :: ·) hjoined), ?_⟩
    intro before after h
    cases before with
    | nil =>
      obtain ⟨rfl, -⟩ := List.cons.inj h
      simpa [leading_cons_cons] using fun hdepth => hinside ⟨rfl, hdepth⟩
    | cons first before =>
      obtain ⟨rfl, hrest⟩ := List.cons.inj h
      exact (hcolons hrest).trans (hlead before).symm

theorem segmentsAt_eq_iff (depth : Nat) (cs : List Char) (parts : List (List Char)) :
    segmentsAt depth cs = parts ↔ DividesAt depth cs parts := by
  induction cs generalizing depth parts with
  | nil => rw [segmentsAt, dividesAt_nil, eq_comm]
  | cons c cs ih =>
    obtain ⟨first, rest, hfirst⟩ := List.exists_cons_of_ne_nil (segmentsAt_ne_nil (depthAfter depth c) cs)
    by_cases hcolon : c = ':' ∧ depth = 0
    · rw [segmentsAt, if_pos hcolon]
      cases parts with
      | nil => exact iff_of_false (List.cons_ne_nil _ _) fun h => h.ne rfl
      | cons part parts =>
        cases part with
        | nil => simp [dividesAt_cons_nil, hcolon, ih]
        | cons d part => simp [dividesAt_cons_cons, hcolon]
    · rw [segmentsAt, if_neg hcolon, hfirst, List.modifyHead]
      cases parts with
      | nil => exact iff_of_false (List.cons_ne_nil _ _) fun h => h.ne rfl
      | cons part parts =>
        cases part with
        | nil => exact iff_of_false (by simp) fun h => hcolon ⟨(dividesAt_cons_nil.1 h).1, (dividesAt_cons_nil.1 h).2.1⟩
        | cons d part =>
          rw [dividesAt_cons_cons, ← ih, hfirst]
          grind

end DividesAt

theorem leading_map_iff {parts : List String} {before : String} :
    Leading (parts.map String.toList) before.toList ↔
      ∃ front back, front ≠ [] ∧ back ≠ [] ∧ parts = front ++ back ∧ before = ":".intercalate front := by
  have hjoin (front : List String) :
      before.toList = [':'].intercalate (front.map String.toList) ↔ before = ":".intercalate front := by
    rw [← String.toList_inj, String.toList_intercalate]
    rfl
  constructor
  · rintro ⟨front, back, hfront, hback, hparts, hbefore⟩
    obtain ⟨front, back, rfl, rfl, rfl⟩ := List.map_eq_append_iff.1 hparts
    exact ⟨front, back, mt (congrArg _) hfront, mt (congrArg _) hback, rfl, (hjoin front).1 hbefore⟩
  · rintro ⟨front, back, hfront, hback, rfl, hbefore⟩
    refine ⟨_, _, ?_, ?_, List.map_append, (hjoin front).2 hbefore⟩
    · simpa using hfront
    · simpa using hback

theorem divides_iff {text : String} {parts : List String} :
    Divides text parts ↔ DividesAt 0 text.toList (parts.map String.toList) := by
  have hjoin : [':'].intercalate (parts.map String.toList) = text.toList ↔ ":".intercalate parts = text := by
    rw [← String.toList_inj, String.toList_intercalate]
    rfl
  constructor
  · rintro ⟨hne, hjoined, hcolons⟩
    refine ⟨by simpa using hne, hjoin.2 hjoined, fun {before after} h => ?_⟩
    have htext : text = String.ofList before ++ ":" ++ String.ofList after := by
      rw [← String.toList_inj, h]
      simp
    have hsplit := (hcolons htext).trans leading_map_iff.symm
    rwa [openBrackets, String.toList_ofList] at hsplit
  · rintro ⟨hne, hjoined, hcolons⟩
    refine ⟨by simpa using hne, hjoin.1 hjoined, fun {before after} h => ?_⟩
    have htext : text.toList = before.toList ++ ':' :: after.toList := by
      rw [h]
      simp
    exact (hcolons htext).trans leading_map_iff

theorem segments_eq_iff {text : String} {parts : List String} : segments text = parts ↔ Divides text parts := by
  rw [divides_iff, ← segmentsAt_eq_iff, segments]
  constructor
  · rintro rfl
    simp [Function.comp_def]
  · intro h
    rw [h]
    simp [Function.comp_def]

/-! ### Bases -/

/-- Whether a base may be a name without the class prefix. -/
def MayBeBare (naming : Naming) (base : String) : Prop :=
  naming.classPrefix = "" ∨ naming.permissive ∧
    ¬(naming.classPrefix ++ "-").toList <+: base.toList ∧
    ¬("-" ++ naming.classPrefix ++ "-").toList <+: base.toList

def Unsigned (name : String) : Prop := ¬"-".toList <+: name.toList

/-- How a base is spelled, with the name that it gives and whether that is negative. -/
inductive Spells (naming : Naming) : (base name : String) → (negative : Bool) → Prop
  | marked {name : String} (hclass : naming.classPrefix ≠ "") (hname : name ≠ "") (hunsigned : Unsigned name) :
      Spells naming (naming.classPrefix ++ "-" ++ name) name false
  | markedMinus {name : String} (hclass : naming.classPrefix ≠ "") (hname : name ≠ "") :
      Spells naming (naming.classPrefix ++ "--" ++ name) name true
  | minusMarked {name : String} (hclass : naming.classPrefix ≠ "") (hname : name ≠ "") :
      Spells naming ("-" ++ naming.classPrefix ++ "-" ++ name) name true
  | bare {name : String} (hbare : MayBeBare naming name) (hname : name ≠ "") (hunsigned : Unsigned name) :
      Spells naming name name false
  | bareMinus {name : String} (hbare : MayBeBare naming ("-" ++ name)) (hname : name ≠ "") :
      Spells naming ("-" ++ name) name true

section Bases

variable {naming : Naming} {base name start : String} {negative : Bool}

theorem eq_append_of_prefix (h : start.toList <+: base.toList) : ∃ rest, base = start ++ rest := by
  obtain ⟨rest, hrest⟩ := h
  refine ⟨String.ofList rest, ?_⟩
  rw [← String.toList_inj, ← hrest]
  simp

theorem after?_eq_none_iff : after? start base = none ↔ ¬start.toList <+: base.toList := by
  constructor
  · intro hnone hprefix
    obtain ⟨rest, rfl⟩ := eq_append_of_prefix hprefix
    rw [after?_append] at hnone
    cases hnone
  · intro hprefix
    cases hafter : after? start base with
    | none => rfl
    | some rest => exact absurd ⟨rest.toList, (after?_eq_some hafter).symm⟩ hprefix

theorem signed_eq_iff : signed base = (name, negative) ↔
    negative = false ∧ base = name ∧ Unsigned name ∨ negative = true ∧ base = "-" ++ name := by
  by_cases hunsigned : Unsigned base
  · have hbare (name : String) : base ≠ "-" ++ name := by
      rintro rfl
      exact hunsigned ⟨name.toList, by simp⟩
    rw [signed, after?_eq_none_iff.2 hunsigned]
    constructor
    · intro h
      obtain ⟨rfl, rfl⟩ := Prod.mk.inj h
      exact .inl ⟨rfl, rfl, hunsigned⟩
    · rintro (⟨rfl, rfl, -⟩ | ⟨-, hbase⟩)
      · rfl
      · exact absurd hbase (hbare name)
  · obtain ⟨rest, rfl⟩ := eq_append_of_prefix (not_not.1 hunsigned)
    rw [signed_minus]
    constructor
    · intro h
      obtain ⟨rfl, rfl⟩ := Prod.mk.inj h
      exact .inr ⟨rfl, rfl⟩
    · rintro (⟨-, rfl, h⟩ | ⟨rfl, hbase⟩)
      · exact absurd h hunsigned
      · rw [(String.append_right_inj "-").1 hbase]

theorem marker_append_minus (naming : Naming) (name : String) :
    naming.marker ++ ("-" ++ name) = naming.classPrefix ++ "--" ++ name := by
  rw [← String.toList_inj]
  simp [Naming.marker]

theorem minus_append_marker (naming : Naming) : "-" ++ naming.marker = "-" ++ naming.classPrefix ++ "-" := by
  rw [Naming.marker, String.append_assoc]

theorem nameOf?_of_mayBeBare (h : MayBeBare naming base) : nameOf? naming base = some (signed base) := by
  rcases h with hclass | ⟨hpermissive, hmarked, hminus⟩
  · exact nameOf?_bare hclass base
  · by_cases hclass : naming.classPrefix = ""
    · exact nameOf?_bare hclass base
    · rw [← minus_append_marker] at hminus
      rw [← Naming.marker] at hmarked
      rw [nameOf?, if_neg (by simpa using hclass)]
      simp only [after?_eq_none_iff.2 hmarked, after?_eq_none_iff.2 hminus, hpermissive, if_true]

theorem nameOf?_eq_none (h : ¬MayBeBare naming base) (hmarked : ¬naming.marker.toList <+: base.toList)
    (hminus : ¬("-" ++ naming.marker).toList <+: base.toList) : nameOf? naming base = none := by
  obtain ⟨hclass, hrest⟩ := not_or.1 h
  have hpermissive : naming.permissive = false := by
    refine Bool.eq_false_iff.2 fun hpermissive => hrest ⟨hpermissive, hmarked, ?_⟩
    rwa [← minus_append_marker]
  rw [nameOf?, if_neg (by simpa using hclass)]
  simp only [after?_eq_none_iff.2 hmarked, after?_eq_none_iff.2 hminus, hpermissive]
  rfl

theorem nameOf?_iff :
    nameOf? naming base = some (name, negative) ∧ name ≠ "" ↔ Spells naming base name negative := by
  constructor
  · rintro ⟨h, hname⟩
    by_cases hbare : MayBeBare naming base
    · rw [nameOf?_of_mayBeBare hbare] at h
      rcases signed_eq_iff.1 (Option.some.inj h) with ⟨rfl, rfl, hunsigned⟩ | ⟨rfl, rfl⟩
      · exact .bare hbare hname hunsigned
      · exact .bareMinus hbare hname
    · have hclass : naming.classPrefix ≠ "" := fun hclass => hbare (.inl hclass)
      by_cases hmarked : naming.marker.toList <+: base.toList
      · obtain ⟨rest, rfl⟩ := eq_append_of_prefix hmarked
        rw [nameOf?_marked hclass] at h
        rcases signed_eq_iff.1 (Option.some.inj h) with ⟨rfl, rfl, hunsigned⟩ | ⟨rfl, rfl⟩
        · exact .marked hclass hname hunsigned
        · rw [marker_append_minus]
          exact .markedMinus hclass hname
      · by_cases hminus : ("-" ++ naming.marker).toList <+: base.toList
        · obtain ⟨rest, rfl⟩ := eq_append_of_prefix hminus
          rw [nameOf?_minusMarked hclass] at h
          obtain ⟨rfl, rfl⟩ := Prod.mk.inj (Option.some.inj h)
          rw [minus_append_marker]
          exact .minusMarked hclass hname
        · rw [nameOf?_eq_none hbare hmarked hminus] at h
          cases h
  · intro h
    cases h with
    | marked hclass hname hunsigned =>
      exact ⟨by rw [← Naming.marker, nameOf?_marked hclass, signed_eq_iff.2 (.inl ⟨rfl, rfl, hunsigned⟩)], hname⟩
    | markedMinus hclass hname =>
      exact ⟨by rw [← marker_append_minus, nameOf?_marked hclass, signed_minus], hname⟩
    | minusMarked hclass hname =>
      exact ⟨by rw [← minus_append_marker, nameOf?_minusMarked hclass], hname⟩
    | bare hbare hname hunsigned =>
      exact ⟨by rw [nameOf?_of_mayBeBare hbare, signed_eq_iff.2 (.inl ⟨rfl, rfl, hunsigned⟩)], hname⟩
    | bareMinus hbare hname => exact ⟨by rw [nameOf?_of_mayBeBare hbare, signed_minus], hname⟩

end Bases

/-! ### Tokens -/

/-- Known variants and a base that spells the name, divided by the colons outside brackets. -/
def Grammatical (naming : Naming) (text : String) (variants : List String) (name : String)
    (negative : Bool) : Prop :=
  ∃ base, Divides text (variants ++ [base]) ∧ (∀ variant ∈ variants, Variant.isName variant) ∧
    Spells naming base name negative

variable {naming : Naming} {text name : String} {variants : List String} {negative : Bool} {token : Token}

theorem Parts.grammatical {base : String} (h : Parts naming text token base) :
    Grammatical naming text token.variants token.name token.negative :=
  ⟨base, segments_eq_iff.1 h.segments_eq, h.variants, nameOf?_iff.1 ⟨h.name_eq, h.name_ne⟩⟩

theorem exists_ofText?_iff :
    (∃ token, ofText? naming text = some token ∧ token.variants = variants ∧ token.name = name ∧
      token.negative = negative) ↔ Grammatical naming text variants name negative := by
  constructor
  · rintro ⟨token, htoken, rfl, rfl, rfl⟩
    obtain ⟨base, hparts⟩ := exists_parts htoken
    exact hparts.grammatical
  · rintro ⟨base, hdivides, hvariants, hspells⟩
    obtain ⟨hname, hne⟩ := nameOf?_iff.2 hspells
    refine ⟨ofParts text variants (name, negative), ?_, rfl, rfl, rfl⟩
    rw [ofText?_eq (segments_eq_iff.2 hdivides) hvariants, hname]
    simp [Option.filter, hne]

theorem Parts.opacity_spec {base digits : String} (h : Parts naming text token base)
    (hdigits : token.opacity = some digits) :
    digits ≠ "" ∧ (∀ c ∈ digits.toList, c.isDigit) ∧ ∃ head, token.name = head ++ "/" ++ digits := by
  have hopacity := h.opacity_eq
  rw [hdigits] at hopacity
  split at hopacity
  · cases hopacity
  · obtain ⟨tail, htail, rfl⟩ := Option.map_eq_some_iff.1 hopacity.symm
    obtain ⟨head, -, hname, hne, hall⟩ := eq_of_opacityOf? htail
    refine ⟨by simpa using hne, by simpa using hall, String.ofList head, ?_⟩
    rw [← String.toList_inj, hname]
    simp

/-- A text is read as a token exactly if the grammar writes it, and what is read of it is the one thing that the
grammar says: the variants in their order, the name and the sign, from which the text is put together again. An
opacity stands at the end of the name, in digits, behind a slash. -/
theorem ofText?_grammar (naming : Naming) (text : String) :
    ((∃ token, ofText? naming text = some token) ↔
      ∃ variants name negative, Grammatical naming text variants name negative) ∧
    ∀ token, ofText? naming text = some token →
      token.text = text ∧
      (∀ variants name negative, Grammatical naming text variants name negative ↔
        variants = token.variants ∧ name = token.name ∧ negative = token.negative) ∧
      ∀ digits, token.opacity = some digits →
        digits ≠ "" ∧ (∀ c ∈ digits.toList, c.isDigit) ∧ ∃ head, token.name = head ++ "/" ++ digits := by
  constructor
  · constructor
    · rintro ⟨token, htoken⟩
      exact ⟨_, _, _, exists_ofText?_iff.1 ⟨token, htoken, rfl, rfl, rfl⟩⟩
    · rintro ⟨variants, name, negative, h⟩
      obtain ⟨token, htoken, -⟩ := exists_ofText?_iff.2 h
      exact ⟨token, htoken⟩
  · intro token htoken
    obtain ⟨base, hparts⟩ := exists_parts htoken
    refine ⟨hparts.text_eq, fun variants name negative => ?_, fun digits => hparts.opacity_spec⟩
    rw [← exists_ofText?_iff]
    constructor
    · rintro ⟨other, hother, rfl, rfl, rfl⟩
      obtain rfl := Option.some.inj (htoken.symm.trans hother)
      exact ⟨rfl, rfl, rfl⟩
    · rintro ⟨rfl, rfl, rfl⟩
      exact ⟨token, htoken, rfl, rfl, rfl⟩

theorem ofText?_grammar_brackets :
    ofText? {} "dark:vibe--w-[a:b]/50" = some {
      text := "dark:vibe--w-[a:b]/50"
      variants := ["dark"]
      name := "w-[a:b]/50"
      negative := true
      opacity := some "50" } ∧
    Grammatical {} "dark:vibe--w-[a:b]/50" ["dark"] "w-[a:b]/50" true ∧
    ¬Grammatical {} "dark:vibe--w-[a:b]/50" ["dark"] "-w-[a:b]/50" false := by
  have hread : ofText? {} "dark:vibe--w-[a:b]/50" = some {
      text := "dark:vibe--w-[a:b]/50"
      variants := ["dark"]
      name := "w-[a:b]/50"
      negative := true
      opacity := some "50" } := by decide
  obtain ⟨-, hgrammar, -⟩ := (ofText?_grammar {} "dark:vibe--w-[a:b]/50").2 _ hread
  exact ⟨hread, (hgrammar _ _ _).2 ⟨rfl, rfl, rfl⟩, fun h => absurd ((hgrammar _ _ _).1 h).2.2 (by decide)⟩

end UtilityCss.Token
