import UtilityCss.Compile
import UtilityCss.Proofs.Replacement
import UtilityCss.Proofs.Tables

/-!
# Steps that could break

Some steps of a compilation have no result outside their domain: a numeral is read, a color is taken apart, a
template is filled in. Here each of them breaks there. An attempt is made of such steps; it may find nothing, as
when a family does not know a name, and it yields what is found if no step breaks.
-/

namespace UtilityCss.Rgb
open Numeral

def hexDigits : List Char := "0123456789abcdefABCDEF".toList

theorem mem_hexDigits {c : Char} (h : (hexDigit? c).isSome) : c ∈ hexDigits := by
  have hall : ∀ n < 128, (hexDigit? (Char.ofNat n)).isSome → Char.ofNat n ∈ hexDigits := by decide
  have hle {d : Char} (hcd : c ≤ d) (hd : d.toNat < 128) : c.toNat < 128 :=
    Nat.lt_of_le_of_lt (UInt32.le_iff_toNat_le.1 hcd) hd
  have hsmall : c.toNat < 128 := by
    unfold hexDigit? at h
    split at h
    · rename_i hdigit
      exact Nat.lt_of_le_of_lt (Text.isDigit_iff.1 hdigit).2 (by decide)
    · split at h
      · rename_i hlower
        exact hle hlower.2 (by decide)
      · split at h
        · rename_i hupper
          exact hle hupper.2 (by decide)
        · cases h
  rw [← Char.ofNat_toNat c] at h ⊢
  exact hall _ hsmall h

theorem channel?_eq {a b : Char} (ha : a ∈ hexDigits) (hb : b ∈ hexDigits) :
    channel? [a, b] = some (Int.ofNat (magnitude 16 [a, b])) := by
  have hall : (hexDigits.all fun c => decide (isMargin c = false ∧ Numeral.isDigit 16 c = true ∧ c ≠ '-' ∧
      c ≠ '+' ∧ c ≠ '_' ∧ c.toLower ≠ 'x')) = true := by decide
  obtain ⟨hmargin, hdigit, hminus, hplus, hscore, hmark⟩ := of_decide_eq_true (List.all_eq_true.1 hall a ha)
  obtain ⟨-, hdigit', -, -, hscore', hmark'⟩ := of_decide_eq_true (List.all_eq_true.1 hall b hb)
  have hsigned : signed 16 [a, b] = (unsigned 16 [a, b]).map Int.ofNat := by
    unfold signed
    split
    · simp_all
    · simp_all
    · rfl
  have hwithout : withoutMark 16 [a, b] = [a, b] := by
    unfold withoutMark
    split
    · rename_i mark rest heq
      obtain ⟨-, rfl, rfl⟩ : a = '0' ∧ b = mark ∧ [] = rest := by simpa using heq
      simp [markOf?, Ne.symm hmark']
    · rfl
  have hunsigned : unsigned 16 [a, b] = .ok (magnitude 16 [a, b]) := by
    simp [unsigned, hwithout, hdigit, hdigit', hscore, hscore', isWellSpaced, Text.pieces]
  simp [channel?, Numeral.read, hmargin, hsigned, hunsigned, Except.map, Except.mapError, Except.toOption]

end UtilityCss.Rgb

namespace UtilityCss.Checked
open Text

/-! ### Steps -/

inductive Fault
  | segments
  | number (text : List Char)
  | decimal (text : String)
  | quotient (numerator : Nat)
  | firstCharacter
  | channels (color : String)
  | opacity (color digits : String)
  | template (text : String)
  | keyframes (name : String)
  deriving DecidableEq, Repr

/-- The result of a step, whose absence breaks the compilation. -/
def required {α : Type} (fault : Fault) : Option α → Except Fault α
  | some a => .ok a
  | none => .error fault

def lastSegment (segments : List String) : Except Fault String := required .segments segments.getLast?

def number (text : List Char) : Except Fault Nat := required (.number text) (digits? 5 text)

def decimal (text : String) : Except Fault Decimal := required (.decimal text) (Decimal.ofText? text)

def quotient (numerator denominator : Nat) : Except Fault Nat :=
  required (.quotient numerator)
    (if denominator = 0 then none else some (Decimal.roundHalfUp numerator denominator))

def firstCharacter (text : String) : Except Fault Char := required .firstCharacter text.toList.head?

def isHexColor (color : String) : Bool :=
  match color.toList with
  | '#' :: digits => (digits.length = 3 || digits.length = 6) && digits.all fun c => (Rgb.hexDigit? c).isSome
  | _ => false

def channels (color : String) : Except Fault Rgb :=
  required (.channels color) (if isHexColor color then Rgb.ofHex? color else none)

def withoutOpacity (color digits : String) : Except Fault String :=
  required (.opacity color digits)
    (if ('/' :: digits.toList).isSuffixOf color.toList then
      some (String.ofList (color.toList.take (color.length - (digits.length + 1))))
    else none)

def isBrace (c : Char) : Bool := c == '\x7b' || c == '\x7d'

def Unbraced (text : String) : Prop := MadeOf (fun c => !isBrace c) text

instance (text : String) : Decidable (Unbraced text) :=
  decidable_of_iff (text.toList.all fun c => !isBrace c) List.all_eq_true

def fieldMark (field : String) : String := "\x7b" ++ field ++ "\x7d"

def filled (template field value : String) : Except Fault String :=
  let mark := (fieldMark field).toList
  required (.template template)
    (if (replaced mark [] template.toList).any isBrace then none
    else some (String.ofList (replaced mark value.toList template.toList)))

def keyframes (name : String) : Except Fault String :=
  required (.keyframes name) (Effect.animations.lookup name)

theorem required_eq_ok {α : Type} {fault : Fault} {result : Option α} {a : α} :
    required fault result = .ok a ↔ result = some a := by
  cases result <;> simp [required]

theorem isSome_ofHex? {color : String} (h : isHexColor color) : (Rgb.ofHex? color).isSome := by
  obtain ⟨digits, hcolor, hlength, hdigits⟩ : ∃ digits, color.toList = '#' :: digits ∧
      (digits.length = 3 ∨ digits.length = 6) ∧ ∀ c ∈ digits, c ∈ Rgb.hexDigits := by
    unfold isHexColor at h
    split at h
    · rename_i digits hcolor
      simp only [Bool.and_eq_true, Bool.or_eq_true, decide_eq_true_eq, List.all_eq_true] at h
      exact ⟨digits, hcolor, h.1, fun c hc => Rgb.mem_hexDigits (h.2 c hc)⟩
    · cases h
  have hdrop : color.toList.dropWhile (· == '#') = digits := by
    obtain ⟨c, cs, rfl⟩ := List.exists_cons_of_length_pos (l := digits) (by omega)
    have hfirst : c ≠ '#' := by
      rintro rfl
      exact absurd (hdigits '#' List.mem_cons_self) (by decide)
    rw [hcolor]
    simp [hfirst]
  -- The short form doubles each digit, so that there are six digits either way.
  obtain ⟨a, b, c, d, e, f, hsix, hmem⟩ : ∃ a b c d e f,
      (if digits.length = 3 then digits.flatMap fun c => [c, c] else digits) = [a, b, c, d, e, f] ∧
        ∀ x ∈ [a, b, c, d, e, f], x ∈ Rgb.hexDigits := by
    rcases hlength with hthree | hsix
    · obtain ⟨a, b, c, rfl⟩ := List.length_eq_three.1 hthree
      exact ⟨a, a, b, b, c, c, rfl, by simpa using hdigits⟩
    · match digits, hsix with
      | [a, b, c, d, e, f], _ => exact ⟨a, b, c, d, e, f, rfl, hdigits⟩
  have hchannel {x y : Char} (hx : x ∈ [a, b, c, d, e, f]) (hy : y ∈ [a, b, c, d, e, f]) :
      ∃ n, Rgb.channel? [x, y] = some n :=
    ⟨_, Rgb.channel?_eq (hmem x hx) (hmem y hy)⟩
  obtain ⟨red, hred⟩ := hchannel (x := a) (y := b) (by simp) (by simp)
  obtain ⟨green, hgreen⟩ := hchannel (x := c) (y := d) (by simp) (by simp)
  obtain ⟨blue, hblue⟩ := hchannel (x := e) (y := f) (by simp) (by simp)
  simp [Rgb.ofHex?, hdrop, hsix, hred, hgreen, hblue]

theorem channels_eq {color : String} (h : isHexColor color) :
    ∃ rgb, channels color = .ok rgb ∧ Rgb.ofHex? color = some rgb := by
  obtain ⟨rgb, hrgb⟩ := Option.isSome_iff_exists.1 (isSome_ofHex? h)
  exact ⟨rgb, by rw [channels, if_pos h, hrgb, required], hrgb⟩

def Fills (field template : String) (fill : String → String) : Prop :=
  ∀ value rest, replaced (fieldMark field).toList value.toList (template.toList ++ rest) =
    (fill value).toList ++ replaced (fieldMark field).toList value.toList rest

namespace Fills

variable {field template other : String} {fill otherFill : String → String}

theorem toList_fieldMark (field : String) :
    (fieldMark field).toList = '\x7b' :: (field.toList ++ ['\x7d']) := by
  simp [fieldMark]

theorem of_field (field : String) : Fills field (fieldMark field) id := by
  intro value rest
  refine replaced_append_part ?_ value.toList rest
  rw [toList_fieldMark]
  exact List.cons_ne_nil _ _

theorem of_text {text : String} (h : Unbraced text) (field : String) :
    Fills field text fun _ => text := by
  intro value rest
  rw [toList_fieldMark]
  exact replaced_append_of_notMem (fun hc => absurd (h _ hc) (by decide)) _ value.toList rest

theorem append (h : Fills field template fill) (hother : Fills field other otherFill) :
    Fills field (template ++ other) fun value => fill value ++ otherFill value := by
  intro value rest
  rw [String.toList_append, String.toList_append, List.append_assoc, h, hother, List.append_assoc]

theorem listed {α : Type} {parts : List α} {templateOf : α → String} {fillOf : α → String → String}
    (h : ∀ part ∈ parts, Fills field (templateOf part) (fillOf part)) :
    Fills field (Selector.listed (parts.map templateOf)) fun value =>
      Selector.listed (parts.map fun part => fillOf part value) := by
  induction parts with
  | nil => exact of_text (.ofList rfl) field
  | cons part parts ih =>
    have hfirst := h part List.mem_cons_self
    cases parts with
    | nil => simpa [Selector.listed] using hfirst
    | cons next parts =>
      have hrest := ih fun other hother => h other (List.mem_cons_of_mem part hother)
      have hcomma : Fills field ", " fun _ => ", " := of_text (by decide) field
      have hwhole := (hfirst.append hcomma).append hrest
      simpa only [Selector.listed, List.map_cons, String.intercalate_cons_cons] using hwhole

theorem filled_eq (h : Fills field template fill) (hplain : Unbraced (fill "")) (value : String) :
    filled template field value = .ok (fill value) := by
  have hread (value : String) :
      replaced (fieldMark field).toList value.toList template.toList = (fill value).toList := by
    have hwhole := h value []
    rw [List.append_nil] at hwhole
    rw [hwhole]
    exact List.append_nil _
  have hbraces : (replaced (fieldMark field).toList [] template.toList).any isBrace = false := by
    rw [show ([] : List Char) = ("" : String).toList from rfl, hread]
    simpa [Unbraced, MadeOf] using hplain
  rw [filled, hbraces, if_neg Bool.false_ne_true, hread, String.ofList_toList]
  rfl

end Fills

def IsNumeral (limit : Nat) (text : List Char) : Prop :=
  text ≠ [] ∧ text.length ≤ limit ∧ ∀ c ∈ text, c.isDigit

instance (limit : Nat) (text : List Char) : Decidable (IsNumeral limit text) :=
  inferInstanceAs (Decidable (_ ∧ _ ∧ _))

theorem digits?_eq (limit : Nat) (text : List Char) : digits? limit text =
    if IsNumeral limit text then some (text.foldl (fun n c => 10 * n + (c.toNat - '0'.toNat)) 0)
    else none := by
  rw [digits?]
  split
  · rename_i hbad
    rw [if_neg]
    rintro ⟨hne, hlength, hdigits⟩
    simp only [Bool.or_eq_true, List.isEmpty_iff, decide_eq_true_eq, Bool.not_eq_true',
      List.all_eq_false] at hbad
    rcases hbad with (hempty | hlong) | ⟨c, hc, hdigit⟩
    · exact hne hempty
    · exact Nat.not_lt.2 hlength hlong
    · exact hdigit (hdigits c hc)
  · rename_i hgood
    rw [if_pos]
    simp only [Bool.or_eq_true, List.isEmpty_iff, decide_eq_true_eq, Bool.not_eq_true',
      List.all_eq_false, not_or, not_exists, not_and, Nat.not_lt, not_not] at hgood
    exact ⟨hgood.1.1, hgood.1.2, hgood.2⟩

theorem number_eq {limit n : Nat} {text : List Char} (hlimit : limit ≤ 5)
    (h : digits? limit text = some n) : number text = .ok n := by
  rw [digits?_eq] at h
  split at h
  · rename_i hnumeral
    refine required_eq_ok.2 ?_
    rwa [digits?_eq, if_pos ⟨hnumeral.1, Nat.le_trans hnumeral.2.1 hlimit, hnumeral.2.2⟩]
  · cases h

/-! ### Where the steps break -/

theorem exists_number_iff {text : List Char} : (∃ n, number text = .ok n) ↔ IsNumeral 5 text := by
  simp only [number, required_eq_ok, digits?_eq]
  split <;> simp_all

theorem exists_firstCharacter_iff {text : String} : (∃ c, firstCharacter text = .ok c) ↔ text ≠ "" := by
  simp only [firstCharacter, required_eq_ok, ← Option.isSome_iff_exists, List.isSome_head?, ne_eq]
  simp

theorem exists_channels_iff {color : String} : (∃ rgb, channels color = .ok rgb) ↔ isHexColor color := by
  constructor
  · rintro ⟨rgb, h⟩
    by_contra hcolor
    rw [channels, if_neg hcolor, required_eq_ok] at h
    cases h
  · intro h
    obtain ⟨rgb, hrgb, -⟩ := channels_eq h
    exact ⟨rgb, hrgb⟩

theorem withoutOpacity_eq_ok {color digits rest : String} :
    withoutOpacity color digits = .ok rest ↔ color = rest ++ "/" ++ digits := by
  have htake (before : List Char) (h : color.toList = before ++ '/' :: digits.toList) :
      color.toList.take (color.length - (digits.length + 1)) = before := by
    have hlength : color.length - (digits.length + 1) = before.length := by
      rw [← String.length_toList, ← String.length_toList, h]
      simp
    rw [hlength, h, List.take_left]
  rw [withoutOpacity, required_eq_ok]
  constructor
  · intro h
    split at h
    · rename_i hsuffix
      obtain ⟨before, hbefore⟩ := List.isSuffixOf_iff_suffix.1 hsuffix
      obtain rfl := Option.some.inj h
      rw [htake before hbefore.symm, ← String.toList_inj, ← hbefore]
      simp
    · cases h
  · intro h
    have hwhole : color.toList = rest.toList ++ '/' :: digits.toList := by
      rw [h]
      simp
    rw [if_pos (List.isSuffixOf_iff_suffix.2 ⟨rest.toList, hwhole.symm⟩), htake rest.toList hwhole,
      String.ofList_toList]

/-! ### Attempts -/

abbrev Attempt (α : Type) := OptionT (Except Fault) α

/-- No step of an attempt breaks, and this is what it finds. -/
def Yields {α : Type} (attempt : Attempt α) (result : Option α) : Prop := attempt.run = .ok result

def found {α : Type} (result : Option α) : Attempt α := OptionT.mk (.ok result)

def firstOf {ι α : Type} (attempt : ι → Attempt α) : List ι → Attempt α
  | [] => failure
  | i :: is => attempt i <|> firstOf attempt is

def numeral (limit : Nat) (text : List Char) : Attempt Nat :=
  if IsNumeral limit text then liftM (number text) else failure

namespace Yields

variable {α β : Type} {attempt other : Attempt α} {result otherResult : Option α}

theorem of_option (result : Option α) : Yields (found result) result := rfl

theorem of_pure (a : α) : Yields (pure a) (some a) := rfl

theorem of_failure : Yields (failure : Attempt α) none := rfl

theorem of_guard (p : Prop) [Decidable p] : Yields (guard p) (guard p) := by
  by_cases h : p
  · simp only [h, guard, if_true]
    rfl
  · simp only [h, guard, if_false]
    rfl

theorem of_step {step : Except Fault α} {a : α} (h : step = .ok a) :
    Yields (liftM step : Attempt α) (some a) := by
  subst h
  rfl

theorem bind {next : α → Attempt β} {nextResult : α → Option β} (h : Yields attempt result)
    (hnext : ∀ a, result = some a → Yields (next a) (nextResult a)) :
    Yields (attempt >>= next) (result >>= nextResult) := by
  rw [Yields, OptionT.run_bind, show attempt.run = .ok result from h]
  cases result with
  | none => rfl
  | some a => exact hnext a rfl

theorem step {step : Except Fault α} {a : α} {next : α → Attempt β} {nextResult : Option β}
    (h : step = .ok a) (hnext : Yields (next a) nextResult) : Yields (liftM step >>= next) nextResult := by
  subst h
  exact hnext

theorem map (h : Yields attempt result) (f : α → β) : Yields (f <$> attempt) (result.map f) := by
  rw [Yields, OptionT.run_map, show attempt.run = .ok result from h]
  rfl

theorem orElse (h : Yields attempt result) (hother : Yields other otherResult) :
    Yields (attempt <|> other) (result <|> otherResult) := by
  rw [Yields, OptionT.run_orElse, show attempt.run = .ok result from h]
  cases result with
  | none => exact hother
  | some a => rfl

theorem ite {p : Prop} [Decidable p] (h : p → Yields attempt result)
    (hother : ¬p → Yields other otherResult) :
    Yields (if p then attempt else other) (if p then result else otherResult) := by
  split
  · exact h ‹_›
  · exact hother ‹_›

theorem firstOf {ι κ : Type} {attempt : ι → Attempt α} {result : κ → Option α} {is : List ι} {ks : List κ}
    (h : List.Forall₂ (fun i k => Yields (attempt i) (result k)) is ks) :
    Yields (firstOf attempt is) (ks.findSome? result) := by
  induction h with
  | nil => exact of_failure
  | @cons i k _ _ hfirst _ ih =>
    rw [List.findSome?_cons]
    have hor := hfirst.orElse ih
    cases hk : result k with
    | none => rwa [hk] at hor
    | some a => rwa [hk] at hor

theorem numeral {limit : Nat} (h : limit ≤ 5) (text : List Char) :
    Yields (numeral limit text) (digits? limit text) := by
  rw [Checked.numeral, digits?_eq]
  refine ite (fun hnumeral => of_step (number_eq h ?_)) fun _ => of_failure
  rw [digits?_eq, if_pos hnumeral]

end Yields

end UtilityCss.Checked
