import Mathlib.Data.List.Basic
import Mathlib.Data.Option.Basic
import UtilityCss.Token

/-!
# The parts of a token

What it means that a text is a token: its segments are the variants and a base, the base is the name with a
sign and the class prefix before it, and a bracketed name is its key and its value with their brackets. Each
reader of `Token` is turned around here once, so that proofs speak of the parts and not of the readers.
-/

namespace UtilityCss.Text

theorem exists_eq_withoutFinalNewline_append (cs : List Char) :
    ∃ ending, cs = withoutFinalNewline cs ++ ending ∧ (ending = [] ∨ ending = ['\n']) := by
  fun_induction withoutFinalNewline cs with
  | case1 => exact ⟨[], rfl, Or.inl rfl⟩
  | case2 => exact ⟨['\n'], rfl, Or.inr rfl⟩
  | case3 c cs _ ih =>
    obtain ⟨ending, heq, hending⟩ := ih
    exact ⟨ending, by rw [List.cons_append, ← heq], hending⟩

theorem withoutFinalNewline_append_cons (before : List Char) (c : Char) (after : List Char) :
    withoutFinalNewline (before ++ c :: after) = before ++ withoutFinalNewline (c :: after) := by
  induction before with
  | nil => rfl
  | cons d before ih =>
    rw [List.cons_append, withoutFinalNewline, ih]
    · rfl
    · simp

theorem after?_eq_some {start s rest : String} (h : after? start s = some rest) :
    s.toList = start.toList ++ rest.toList := by
  obtain ⟨cs, hcs, rfl⟩ := Option.map_eq_some_iff.1 h
  rw [String.toList_ofList, List.isPrefixOf?_eq_some_iff_append_eq.1 hcs]

theorem firstCut?_append_cons {a : Char} {before : List Char} (h : a ∉ before) (after : List Char) :
    firstCut? a (before ++ a :: after) = some (before, after) := by
  induction before with
  | nil => simp [firstCut?]
  | cons c before ih =>
    obtain ⟨hc, hbefore⟩ := not_or.1 (mt List.mem_cons.2 h)
    rw [List.cons_append, firstCut?, if_neg (Ne.symm hc), ih hbefore]
    rfl

theorem append_cons_inj {a : Char} {x x' y y' : List Char} (hx : a ∉ x) (hx' : a ∉ x')
    (h : x ++ a :: y = x' ++ a :: y') : x = x' ∧ y = y' := by
  have hcut := congrArg (firstCut? a) h
  rw [firstCut?_append_cons hx, firstCut?_append_cons hx'] at hcut
  exact Prod.mk.inj (Option.some.inj hcut)

theorem lastCut?_append {a : Char} (before : List Char) {cs x y : List Char}
    (h : lastCut? a cs = some (x, y)) : lastCut? a (before ++ cs) = some (before ++ x, y) := by
  induction before with
  | nil => exact h
  | cons c before ih => simp [lastCut?, ih]

theorem lastCut?_of_notMem {a : Char} {cs : List Char} (h : a ∉ cs) : lastCut? a cs = none := by
  induction cs with
  | nil => rfl
  | cons c cs ih =>
    obtain ⟨hc, hcs⟩ := not_or.1 (mt List.mem_cons.2 h)
    simp [lastCut?, ih hcs, Ne.symm hc]

theorem lastCut?_cons_append {a : Char} (before : List Char) {after : List Char} (h : a ∉ after) :
    lastCut? a (before ++ a :: after) = some (before, after) := by
  have hlast : lastCut? a (a :: after) = some ([], after) := by
    simp [lastCut?, lastCut?_of_notMem h]
  simpa using lastCut?_append before hlast

theorem exists_lastCut? {a : Char} {cs : List Char} (h : a ∈ cs) :
    ∃ x y, lastCut? a cs = some (x, y) := by
  cases hcut : lastCut? a cs with
  | none => exact absurd h (lastCut?_eq_none hcut)
  | some p => exact ⟨p.1, p.2, rfl⟩

theorem intercalate_concat {α : Type} (separator last : List α) {parts : List (List α)}
    (h : parts ≠ []) :
    separator.intercalate (parts ++ [last]) = separator.intercalate parts ++ separator ++ last := by
  induction parts with
  | nil => exact absurd rfl h
  | cons part parts ih =>
    cases parts with
    | nil => simp [List.intercalate]
    | cons next parts =>
      rw [List.cons_append, List.cons_append, List.intercalate_cons_cons, ← List.cons_append,
        ih (List.cons_ne_nil next parts), List.intercalate_cons_cons]
      simp

end UtilityCss.Text

namespace UtilityCss.Token
open Text

theorem intercalate_segmentsAt (depth : Nat) (cs : List Char) :
    [':'].intercalate (segmentsAt depth cs) = cs := by
  induction cs generalizing depth with
  | nil => rfl
  | cons c cs ih =>
    rw [segmentsAt]
    split
    · rename_i hcolon
      obtain ⟨part, parts, hparts⟩ := List.exists_cons_of_ne_nil (segmentsAt_ne_nil 0 cs)
      have := ih 0
      rw [hparts] at this ⊢
      rw [List.intercalate_cons_cons, this, hcolon.1]
      rfl
    · obtain ⟨part, parts, hparts⟩ :=
        List.exists_cons_of_ne_nil (segmentsAt_ne_nil (depthAfter depth c) cs)
      have := ih (depthAfter depth c)
      rw [hparts] at this ⊢
      cases parts with
      | nil => simpa using this
      | cons next parts =>
        rw [List.modifyHead, List.intercalate_cons_cons] at *
        simpa using this

/-- The ways to write a sign and the class prefix before a utility name, with the sign that they give. -/
inductive Front (naming : Naming) : Bool → List Char → Prop
  | plain (h : naming.classPrefix = "" ∨ naming.permissive) : Front naming false []
  | minus (h : naming.classPrefix = "" ∨ naming.permissive) : Front naming true ['-']
  | marked (h : naming.classPrefix ≠ "") : Front naming false naming.marker.toList
  | markedMinus (h : naming.classPrefix ≠ "") : Front naming true (naming.marker.toList ++ ['-'])
  | minusMarked (h : naming.classPrefix ≠ "") : Front naming true ('-' :: naming.marker.toList)

theorem signed_cases {text name : String} {negative : Bool} (h : signed text = (name, negative)) :
    negative = false ∧ text.toList = name.toList ∨
      negative = true ∧ text.toList = '-' :: name.toList := by
  simp only [signed] at h
  split at h
  · rename_i rest hrest
    obtain ⟨rfl, rfl⟩ := Prod.mk.inj h
    exact Or.inr ⟨rfl, after?_eq_some hrest⟩
  · obtain ⟨rfl, rfl⟩ := Prod.mk.inj h
    exact Or.inl ⟨rfl, rfl⟩

theorem exists_front {naming : Naming} {base name : String} {negative : Bool}
    (h : nameOf? naming base = some (name, negative)) :
    ∃ front, Front naming negative front ∧ base.toList = front ++ name.toList := by
  simp only [nameOf?, String.isEmpty_iff] at h
  split at h
  · rename_i hpre
    rcases signed_cases (Option.some.inj h) with ⟨rfl, hbase⟩ | ⟨rfl, hbase⟩
    · exact ⟨[], .plain (Or.inl hpre), hbase⟩
    · exact ⟨['-'], .minus (Or.inl hpre), hbase⟩
  · rename_i hpre
    split at h
    · rename_i rest hrest
      have hmarked := after?_eq_some hrest
      rcases signed_cases (Option.some.inj h) with ⟨rfl, hname⟩ | ⟨rfl, hname⟩
      · exact ⟨_, .marked hpre, by rw [hmarked, hname]⟩
      · exact ⟨_, .markedMinus hpre, by rw [hmarked, hname]; simp⟩
    · split at h
      · rename_i rest hrest
        obtain ⟨rfl, rfl⟩ := Prod.mk.inj (Option.some.inj h)
        exact ⟨_, .minusMarked hpre, by rw [after?_eq_some hrest]; simp⟩
      · split at h
        · rename_i hpermissive
          rcases signed_cases (Option.some.inj h) with ⟨rfl, hbase⟩ | ⟨rfl, hbase⟩
          · exact ⟨[], .plain (Or.inr hpermissive), hbase⟩
          · exact ⟨['-'], .minus (Or.inr hpermissive), hbase⟩
        · cases h

theorem eq_of_opening? : ∀ {cs key value : List Char}, opening? cs = some (key, value) →
    cs = key ++ '-' :: '[' :: value := by
  intro cs
  fun_induction opening? cs with
  | case1 rest =>
    intro key value h
    obtain ⟨rfl, rfl⟩ := Prod.mk.inj (Option.some.inj h)
    rfl
  | case2 c cs _ ih =>
    intro key value h
    obtain ⟨p, hp, heq⟩ := Option.map_eq_some_iff.1 h
    obtain ⟨rfl, rfl⟩ := Prod.mk.inj heq
    rw [ih hp]
    rfl
  | case3 =>
    intro key value h
    cases h

theorem eq_of_brackets? {name key value : List Char} (h : brackets? name = some (key, value)) :
    ∃ ending, name = key ++ '-' :: '[' :: value ++ ']' :: ending ∧
      (ending = [] ∨ ending = ['\n']) := by
  obtain ⟨ending, hname, hending⟩ := exists_eq_withoutFinalNewline_append name
  refine ⟨ending, ?_, hending⟩
  simp only [brackets?, Option.bind_eq_bind, Option.bind_eq_some_iff, Option.guard_eq_some'] at h
  obtain ⟨-, hlast, h⟩ := h
  have hsplit := List.dropLast_append_getLast? _ hlast
  cases hinit : (withoutFinalNewline name).dropLast with
  | nil => simp [hinit] at h
  | cons c cs =>
    rw [hinit] at h hsplit
    obtain ⟨p, hp, h⟩ := Option.bind_eq_some_iff.1 h
    split at h
    · cases h
    · obtain ⟨rfl, rfl⟩ := Prod.mk.inj (Option.some.inj h)
      rw [eq_of_opening? hp] at hsplit
      conv_lhs => rw [hname, ← hsplit]
      simp

theorem eq_of_opacityOf? {name digits : List Char} (h : opacityOf? name = some digits) :
    ∃ head, head ≠ [] ∧ name = head ++ '/' :: digits ∧ digits ≠ [] ∧ ∀ c ∈ digits, c.isDigit := by
  simp only [opacityOf?, Option.bind_eq_bind, Option.bind_eq_some_iff] at h
  obtain ⟨p, hp, h⟩ := h
  split at h
  · cases h
  · rename_i hcond
    obtain rfl := Option.some.inj h
    simp only [Bool.or_eq_true, Bool.not_eq_true', not_or, List.isEmpty_iff, Bool.not_eq_false,
      List.all_eq_true] at hcond
    exact ⟨p.1, hcond.1.1, (eq_of_lastCut? hp).1, hcond.1.2, hcond.2⟩

structure Parts (naming : Naming) (text : String) (token : Token) (base : String) : Prop where
  text_eq : token.text = text
  segments_eq : segments text = token.variants ++ [base]
  base_ne : base ≠ ""
  variants : ∀ variant ∈ token.variants, Variant.isName variant
  name_eq : nameOf? naming base = some (token.name, token.negative)
  name_ne : token.name ≠ ""
  arbitrary_eq : token.arbitrary =
    (brackets? token.name.toList).map fun p => (String.ofList p.1, String.ofList p.2)
  opacity_eq : token.opacity =
    if token.arbitrary.isSome then none else (opacityOf? token.name.toList).map String.ofList

theorem exists_parts {naming : Naming} {text : String} {token : Token}
    (h : ofText? naming text = some token) : ∃ base, Parts naming text token base := by
  simp only [ofText?, Option.bind_eq_bind, Option.bind_eq_some_iff, Option.guard_eq_some',
    Bool.and_eq_true, Bool.not_eq_true', String.isEmpty_eq_false_iff, List.all_eq_true] at h
  obtain ⟨base, hbase, -, ⟨hne, hvariants⟩, p, hp, -, hname, h⟩ := h
  obtain rfl := Option.some.inj h
  exact ⟨base, {
    text_eq := rfl
    segments_eq := (List.dropLast_append_getLast? _ hbase).symm
    base_ne := hne
    variants := hvariants
    name_eq := hp
    name_ne := hname
    arbitrary_eq := rfl
    opacity_eq := rfl }⟩

theorem Parts.ofText?_eq {naming : Naming} {text base : String} {token : Token}
    (h : Parts naming text token base) : ofText? naming text = some token := by
  have hall : token.variants.all Variant.isName = true := List.all_eq_true.2 h.variants
  obtain ⟨tokenText, variants, name, negative, arbitrary, opacity⟩ := token
  obtain ⟨htext, hsegments, hbase, -, hname, hne, harbitrary, hopacity⟩ := h
  simp only at hall htext hsegments hname hne harbitrary hopacity
  simp [ofText?, hsegments, hbase, hall, hname, hne, htext, harbitrary, hopacity, guard]

theorem Parts.text_ne {naming : Naming} {text base : String} {token : Token}
    (h : Parts naming text token base) : text ≠ "" ∧ text ≠ ":" := by
  constructor
  all_goals
    rintro rfl
    have hlast := congrArg List.getLast? h.segments_eq
    rw [List.getLast?_concat] at hlast
    exact h.base_ne (Option.some.inj hlast).symm

theorem Parts.segmentsAt_eq {naming : Naming} {text base : String} {token : Token}
    (h : Parts naming text token base) :
    segmentsAt 0 text.toList = token.variants.map String.toList ++ [base.toList] := by
  have hsegments := congrArg (List.map String.toList) h.segments_eq
  simpa [segments, Function.comp_def] using hsegments

theorem Parts.toList_eq {naming : Naming} {text base : String} {token : Token}
    (h : Parts naming text token base) :
    text.toList = [':'].intercalate (token.variants.map String.toList ++ [base.toList]) := by
  rw [← h.segmentsAt_eq, intercalate_segmentsAt]

theorem Parts.bracketed_name {naming : Naming} {text base key value : String} {token : Token}
    (h : Parts naming text token base) (harbitrary : token.arbitrary = some (key, value)) :
    ∃ ending, token.name.toList = key.toList ++ '-' :: '[' :: value.toList ++ ']' :: ending ∧
      (ending = [] ∨ ending = ['\n']) := by
  have heq := h.arbitrary_eq
  rw [harbitrary] at heq
  obtain ⟨⟨before, inside⟩, hbrackets, hpair⟩ := Option.map_eq_some_iff.1 heq.symm
  obtain ⟨rfl, rfl⟩ := Prod.mk.inj hpair
  simpa using eq_of_brackets? hbrackets

end UtilityCss.Token
