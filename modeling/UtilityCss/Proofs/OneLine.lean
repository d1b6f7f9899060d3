import Mathlib.Data.List.Basic
import UtilityCss.Decimal
import UtilityCss.Utility.Basic

/-!
# Texts made of certain characters

The tables and formulas of the utilities write texts whose characters all belong to a class: declarations
hold no line feed, and utility names hold lower-case letters, digits and three punctuation marks. Such texts
are closed under joining, and numbers are written in them.
-/

namespace UtilityCss.Text

theorem isUpper_iff {c : Char} : c.isUpper ↔ 65 ≤ c.toNat ∧ c.toNat ≤ 90 := by
  have h : c.isUpper = decide (65 ≤ c.val ∧ c.val ≤ 90) := rfl
  rw [h, decide_eq_true_eq, UInt32.le_iff_toNat_le, UInt32.le_iff_toNat_le]
  exact Iff.rfl

theorem isLower_iff {c : Char} : c.isLower ↔ 97 ≤ c.toNat ∧ c.toNat ≤ 122 := by
  have h : c.isLower = (decide (97 ≤ c.val) && decide (c.val ≤ 122)) := rfl
  rw [h, Bool.and_eq_true, decide_eq_true_eq, decide_eq_true_eq, UInt32.le_iff_toNat_le,
    UInt32.le_iff_toNat_le]
  exact Iff.rfl

theorem isDigit_iff {c : Char} : c.isDigit ↔ 48 ≤ c.toNat ∧ c.toNat ≤ 57 := Char.isDigit_iff_toNat

theorem isAlphanum_iff {c : Char} : c.isAlphanum ↔ (65 ≤ c.toNat ∧ c.toNat ≤ 90) ∨
    (97 ≤ c.toNat ∧ c.toNat ≤ 122) ∨ (48 ≤ c.toNat ∧ c.toNat ≤ 57) := by
  have h : c.isAlphanum = ((c.isUpper || c.isLower) || c.isDigit) := rfl
  rw [h, Bool.or_eq_true, Bool.or_eq_true, isUpper_iff, isLower_iff, isDigit_iff, or_assoc]

def MadeOf (class? : Char → Bool) (s : String) : Prop := ∀ c ∈ s.toList, class? c

def isInline (c : Char) : Bool := c != '\n'

def isNamePart (c : Char) : Bool := c.isLower || c.isDigit || c == '-' || c == '/' || c == '.'

abbrev OneLine (s : String) : Prop := MadeOf isInline s

abbrev NameText (s : String) : Prop := MadeOf isNamePart s

theorem MadeOf.append {p : Char → Bool} {a b : String} (ha : MadeOf p a) (hb : MadeOf p b) :
    MadeOf p (a ++ b) := by
  intro c hc
  rw [String.toList_append, List.mem_append] at hc
  exact hc.elim (ha c) (hb c)

theorem MadeOf.mono {p q : Char → Bool} (h : ∀ c, p c → q c) {s : String} (hs : MadeOf p s) :
    MadeOf q s :=
  fun c hc => h c (hs c hc)

/-- A literal is checked as the list of its characters, which is much faster than taking it apart. -/
theorem MadeOf.ofList {p : Char → Bool} {cs : List Char} (h : cs.all p = true) :
    MadeOf p (String.ofList cs) := by
  simpa [MadeOf] using h

theorem MadeOf.intercalate {p : Char → Bool} {separator : String} (hs : MadeOf p separator)
    {texts : List String} (h : ∀ s ∈ texts, MadeOf p s) : MadeOf p (separator.intercalate texts) := by
  induction texts with
  | nil => exact .ofList rfl
  | cons s texts ih =>
    have hfirst := h s List.mem_cons_self
    cases texts with
    | nil =>
      rw [String.intercalate_singleton]
      exact hfirst
    | cons t texts =>
      have hrest := ih fun u hu => h u (List.mem_cons_of_mem s hu)
      rw [String.intercalate_cons_cons]
      exact (hfirst.append hs).append hrest

theorem madeOf_toString (n : Nat) : MadeOf Char.isDigit (toString n) := by
  intro c hc
  rw [Nat.toString_eq_ofList_toDigits, String.toList_ofList] at hc
  exact Nat.isDigit_of_mem_toDigits (by decide) (by decide) hc

theorem isInline_of_isDigit {c : Char} (h : c.isDigit) : isInline c := by
  rw [isInline, bne_iff_ne]
  rintro rfl
  exact absurd h (by decide)

theorem isNamePart_of_isDigit {c : Char} (h : c.isDigit) : isNamePart c := by simp [isNamePart, h]

theorem oneLine_toString (n : Nat) : OneLine (toString n) :=
  (madeOf_toString n).mono fun _ => isInline_of_isDigit

theorem nameText_toString (n : Nat) : NameText (toString n) :=
  (madeOf_toString n).mono fun _ => isNamePart_of_isDigit

theorem nameText_toString_int (n : Int) : NameText (toString n) := by
  cases n with
  | ofNat n => exact nameText_toString n
  | negSucc n => exact MadeOf.append (.ofList rfl) (nameText_toString (n + 1))

theorem oneLine_iff {s : String} : OneLine s ↔ '\n' ∉ s.toList := by
  simp only [MadeOf, isInline, bne_iff_ne]
  exact ⟨fun h hmem => h _ hmem rfl, fun h c hc heq => h (heq ▸ hc)⟩

end UtilityCss.Text

namespace UtilityCss.Decimal
open Text

theorem mem_stripEnd {drops : Char → Bool} {c : Char} {cs : List Char}
    (h : c ∈ stripEnd drops cs) : c ∈ cs := by
  have hreverse := (List.dropWhile_suffix drops).mem (List.mem_reverse.1 h)
  exact List.mem_reverse.1 hreverse

theorem mem_placePoint {digits : List Char} {places : Nat} {c : Char}
    (h : c ∈ placePoint digits places) : c ∈ digits ∨ c = '0' ∨ c = '.' := by
  simp only [placePoint, List.mem_append, List.mem_cons] at h
  have hpadded {cs : List Char} (hsub : cs ⊆ List.replicate (places + 1 - digits.length) '0' ++ digits)
      (hc : c ∈ cs) : c ∈ digits ∨ c = '0' ∨ c = '.' := by
    rcases List.mem_append.1 (hsub hc) with hc | hc
    · exact Or.inr (Or.inl (List.eq_of_mem_replicate hc))
    · exact Or.inl hc
  rcases h with h | rfl | h
  · exact hpadded (List.take_subset _ _) h
  · exact Or.inr (Or.inr rfl)
  · exact hpadded (List.drop_subset _ _) h

theorem isNamePart_of_mem_positional {digits : List Char} (h : ∀ c ∈ digits, isNamePart c)
    (exponent : Int) : ∀ c ∈ (if 0 ≤ exponent then digits ++ List.replicate exponent.toNat '0'
      else placePoint digits (-exponent).toNat), isNamePart c := by
  intro c hc
  split at hc
  · rcases List.mem_append.1 hc with hc | hc
    · exact h c hc
    · obtain rfl := List.eq_of_mem_replicate hc
      decide
  · rcases mem_placePoint hc with hc | rfl | rfl
    · exact h c hc
    · decide
    · decide

theorem nameText_render (d : Decimal) : NameText d.render := by
  have hdigits : ∀ c ∈ (significantDigits d.rounded.coefficient).1, isNamePart c := by
    intro c hc
    exact isNamePart_of_isDigit
      (Nat.isDigit_of_mem_toDigits (by decide) (by decide) (mem_stripEnd hc))
  have hplain := isNamePart_of_mem_positional hdigits
    (d.rounded.exponent + (significantDigits d.rounded.coefficient).2)
  simp only [render]
  split
  · exact .ofList rfl
  · intro c hc
    rw [String.toList_ofList] at hc
    split at hc
    · rcases List.mem_cons.1 hc with rfl | hc
      · decide
      · exact hplain c hc
    · exact hplain c hc

end UtilityCss.Decimal
