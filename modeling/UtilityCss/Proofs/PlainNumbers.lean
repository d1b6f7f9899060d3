import UtilityCss.Proofs.ClassAttribute
import UtilityCss.Proofs.NumericValue

/-!
# Numbers in plain digits

A plain number is an optional minus sign, digits, and perhaps more digits behind a point. No digit of it can be left
out, and zero has no sign. Each number has at most one such text, and the text is read as that number.
-/

namespace UtilityCss.Decimal
open Text

variable {c : Char} {cs whole fraction : List Char}

def pointed (whole : List Char) : List Char → List Char
  | [] => whole
  | c :: fraction => whole ++ '.' :: c :: fraction

theorem pointed_of_ne_nil (h : fraction ≠ []) : pointed whole fraction = whole ++ '.' :: fraction := by
  cases fraction with
  | nil => exact absurd rfl h
  | cons c fraction => rfl

/-- A number in plain digits. -/
structure Plain where
  negative : Bool := false
  whole : List Char
  fraction : List Char := []
  isDigit : ∀ c ∈ whole ++ fraction, c.isDigit
  written : whole ≠ []
  /-- No zero stands in front of another digit. -/
  leading : whole.head? = some '0' → whole = ['0']
  /-- No zero stands at the end of a fraction. -/
  trailing : fraction.getLast? ≠ some '0'
  /-- Zero has no sign. -/
  signed : negative = true → whole ≠ ['0'] ∨ fraction ≠ []

namespace Plain

def text (p : Plain) : String :=
  String.ofList (if p.negative then '-' :: pointed p.whole p.fraction else pointed p.whole p.fraction)

def zero : Plain where
  whole := ['0']
  isDigit := List.forall_mem_singleton.2 rfl
  written := List.cons_ne_nil _ _
  leading _ := rfl
  trailing := by decide
  signed := by decide

def number (p : Plain) : Decimal :=
  { negative := p.negative
    coefficient := Nat.ofDigitChars 10 (p.whole ++ p.fraction) 0
    exponent := -p.fraction.length }

/-! ### One text for one number -/

variable {p q : Plain}

theorem fraction_eq_nil_of_dvd (h : 10 ∣ p.number.coefficient) : p.fraction = [] := by
  by_contra hne
  have hlast := getLast?_eq_of_dvd p.isDigit (List.append_ne_nil_of_left_ne_nil p.written _) h
  rw [List.getLast?_append_of_ne_nil _ hne] at hlast
  exact p.trailing hlast

theorem exists_cons_whole (p : Plain) : ∃ first rest, p.whole = first :: rest ∧ first.isDigit ∧
    (first = '0' → rest = []) := by
  obtain ⟨first, rest, hwhole⟩ := List.exists_cons_of_ne_nil p.written
  refine ⟨first, rest, hwhole, p.isDigit _ (by simp [hwhole]), fun hzero => ?_⟩
  have honly := p.leading (by rw [hwhole, hzero, List.head?_cons])
  rw [hwhole] at honly
  exact (List.cons.inj honly).2

theorem eq_zero_of_coefficient (h : p.number.coefficient = 0) : p.whole = ['0'] ∧ p.fraction = [] := by
  have hnone := fraction_eq_nil_of_dvd (h ▸ Nat.dvd_zero 10)
  obtain ⟨first, rest, hwhole, hfirst, hrest⟩ := p.exists_cons_whole
  by_cases hzero : first = '0'
  · exact ⟨by rw [hwhole, hzero, hrest hzero], hnone⟩
  · have hle := le_ofDigitChars_cons hfirst hzero (rest ++ p.fraction)
    rw [← List.cons_append, ← hwhole] at hle
    exact absurd h (Nat.pos_iff_ne_zero.1 ((Nat.pow_pos (by decide)).trans_le hle))

theorem length_whole_le (hplaces : p.fraction.length = q.fraction.length)
    (h : p.number.coefficient = q.number.coefficient) : p.whole.length ≤ q.whole.length := by
  by_contra hlt
  obtain ⟨first, rest, hwhole, hfirst, hrest⟩ := p.exists_cons_whole
  have hone := List.length_pos_of_ne_nil q.written
  have hmore : q.whole.length ≤ rest.length := by
    rw [hwhole, List.length_cons] at hlt
    omega
  have hzero : first ≠ '0' := by
    intro heq
    rw [hrest heq, List.length_nil] at hmore
    omega
  have hle := le_ofDigitChars_cons hfirst hzero (rest ++ p.fraction)
  have hless := ofDigitChars_lt q.isDigit
  rw [← List.cons_append, ← hwhole] at hle
  have hpower := Nat.pow_lt_pow_iff_right (by decide) |>.1 ((hle.trans_eq h).trans_lt hless)
  rw [List.length_append, List.length_append] at hpower
  omega

theorem eq_of_number (h : p.number = q.number) : p = q := by
  have hnegative : p.negative = q.negative := congrArg Decimal.negative h
  have hcoefficient := congrArg Decimal.coefficient h
  have hplaces : p.fraction.length = q.fraction.length := by
    have hexponent : -(p.fraction.length : Int) = -q.fraction.length := congrArg Decimal.exponent h
    omega
  have hwhole := Nat.le_antisymm (length_whole_le hplaces hcoefficient)
    (length_whole_le hplaces.symm hcoefficient.symm)
  have hall : p.whole ++ p.fraction = q.whole ++ q.fraction := by
    apply eq_of_ofDigitChars _ p.isDigit q.isDigit hcoefficient
    rw [List.length_append, List.length_append, hwhole, hplaces]
  obtain ⟨hwhole, hfraction⟩ := List.append_inj hall hwhole
  cases p
  cases q
  congr

theorem number_eq_zero (h : p.number.coefficient = 0) : p.number = { coefficient := 0 } := by
  obtain ⟨hwhole, hfraction⟩ := eq_zero_of_coefficient h
  have hsign : p.negative = false := by
    by_contra hsigned
    rcases p.signed (by simpa using hsigned) with hne | hne
    · exact hne hwhole
    · exact hne hfraction
  rw [number, hsign, hwhole, hfraction]
  rfl

theorem exponent_eq_zero {coefficient zeros : Nat} (hne : zeros ≠ 0)
    (h : p.number.coefficient = coefficient * 10 ^ zeros) : p.number.exponent = 0 := by
  have hdvd : 10 ∣ p.number.coefficient := h ▸ (dvd_pow_self 10 hne).mul_left _
  have hplaces : p.number.exponent = -p.fraction.length := rfl
  rw [hplaces, fraction_eq_nil_of_dvd hdvd, List.length_nil]
  rfl

theorem number_eq_of_zeros {zeros : Nat} (hnegative : p.negative = q.negative)
    (hexponent : p.number.exponent = q.number.exponent + zeros)
    (hcoefficient : q.number.coefficient = p.number.coefficient * 10 ^ zeros) : p.number = q.number := by
  have hplaces : p.number.exponent = -p.fraction.length := rfl
  have hnone : zeros = 0 := by
    by_contra hne
    have hwhole := exponent_eq_zero hne hcoefficient
    omega
  rw [hnone, Int.natCast_zero, Int.add_zero] at hexponent
  rw [hnone, Nat.pow_zero, Nat.mul_one] at hcoefficient
  rw [number, number, Decimal.mk.injEq]
  exact ⟨hnegative, hcoefficient.symm, hexponent⟩

theorem eq_of_value (h : p.number.value = q.number.value) : p = q := by
  apply eq_of_number
  by_cases hzero : p.number.coefficient = 0
  · have hzero' := value_eq_zero_iff.1 (h ▸ value_eq_zero_iff.2 hzero)
    rw [number_eq_zero hzero, number_eq_zero hzero']
  · have hzero' := mt (fun hq => value_eq_zero_iff.1 (h ▸ value_eq_zero_iff.2 hq)) hzero
    have hsign : p.negative = q.negative := by
      rw [Bool.eq_iff_iff]
      exact (value_neg_iff hzero).symm.trans (h ▸ value_neg_iff hzero')
    have hforms := congrArg abs h
    rw [abs_value, abs_value] at hforms
    obtain ⟨zeros, ⟨hexponent, hcoefficient⟩ | ⟨hexponent, hcoefficient⟩⟩ := exists_zeros hforms
    · exact number_eq_of_zeros hsign hexponent hcoefficient
    · exact (number_eq_of_zeros hsign.symm hexponent hcoefficient).symm

theorem text_eq_zero (h : p.number.coefficient = 0) : p.text = "0" := by
  have heq : p = zero := eq_of_number (number_eq_zero h)
  rw [heq]
  rfl

end Plain

/-! ### Reading -/

theorem signed_of_isDigit (h : c.isDigit) (cs : List Char) : Decimal.signed (c :: cs) = (false, c :: cs) := by
  rw [Decimal.signed]
  · rintro rest heq
    rw [(List.cons.inj heq).1] at h
    cases h
  · rintro rest heq
    rw [(List.cons.inj heq).1] at h
    cases h

theorem mem_pointed (hdigits : ∀ c ∈ whole ++ fraction, c.isDigit) (h : c ∈ pointed whole fraction) :
    c = '.' ∨ c.isDigit := by
  by_cases hnone : fraction = []
  · subst hnone
    exact .inr (hdigits c (List.mem_append_left _ h))
  · rw [pointed_of_ne_nil hnone, List.mem_append, List.mem_cons] at h
    rcases h with h | rfl | h
    · exact .inr (hdigits c (List.mem_append_left _ h))
    · exact .inl rfl
    · exact .inr (hdigits c (List.mem_append_right _ h))

theorem firstCut?_pointed (hdigits : ∀ c ∈ whole ++ fraction, c.isDigit) :
    (firstCut? '.' (pointed whole fraction)).getD (pointed whole fraction, []) = (whole, fraction) := by
  have hpoint : '.' ∉ whole :=
    notMem_of_isDigit (fun c hc => hdigits c (List.mem_append_left _ hc)) (by decide)
  by_cases hnone : fraction = []
  · subst hnone
    have hcut : firstCut? '.' whole = none := by
      cases hcut : firstCut? '.' whole with
      | none => rfl
      | some p =>
        obtain ⟨heq, -⟩ := eq_of_firstCut? hcut
        exact absurd (heq ▸ List.mem_append_right p.1 List.mem_cons_self) hpoint
    rw [pointed, hcut, Option.getD_none]
  · rw [pointed_of_ne_nil hnone, firstCut?_append_cons hpoint, Option.getD_some]

theorem ofChars?_of_signed {negative : Bool} (hne : whole ≠ []) (hdigits : ∀ c ∈ whole ++ fraction, c.isDigit)
    (hsigned : Decimal.signed cs = (negative, pointed whole fraction)) :
    ofChars? cs = some
      { negative, coefficient := Nat.ofDigitChars 10 (whole ++ fraction) 0, exponent := -fraction.length } := by
  have hmantissa : (pointed whole fraction).takeWhile (fun c => !(c == 'e' || c == 'E')) = pointed whole fraction := by
    refine List.takeWhile_eq_self_iff.2 fun c hc => ?_
    rcases mem_pointed hdigits hc with rfl | hdigit
    · decide
    · have hupper : c ≠ 'E' := by rintro rfl; cases hdigit
      have hlower : c ≠ 'e' := by rintro rfl; cases hdigit
      simp [hupper, hlower]
  have hvalue : digits? (whole ++ fraction).length (whole ++ fraction) =
      some (Nat.ofDigitChars 10 (whole ++ fraction) 0) :=
    digits?_eq_some_iff.2 ⟨List.append_ne_nil_of_left_ne_nil hne _, Nat.le_refl _, hdigits, rfl⟩
  simp only [ofChars?, hsigned, hmantissa, List.drop_length, firstCut?_pointed hdigits, hvalue, Option.bind_eq_bind,
    Option.bind_some, Int.zero_sub]

namespace Plain

variable {p q : Plain}

theorem exists_cons_pointed (p : Plain) : ∃ first cs, pointed p.whole p.fraction = first :: cs ∧ first.isDigit := by
  obtain ⟨first, rest, hwhole, hfirst, -⟩ := p.exists_cons_whole
  rw [hwhole]
  cases p.fraction with
  | nil => exact ⟨first, rest, rfl, hfirst⟩
  | cons c fraction => exact ⟨first, rest ++ '.' :: c :: fraction, rfl, hfirst⟩

theorem signed_text (p : Plain) : Decimal.signed p.text.toList = (p.negative, pointed p.whole p.fraction) := by
  rw [text, String.toList_ofList]
  cases p.negative with
  | true => rfl
  | false =>
    obtain ⟨first, cs, hpointed, hfirst⟩ := p.exists_cons_pointed
    rw [hpointed]
    exact signed_of_isDigit hfirst cs

theorem ofChars?_text (p : Plain) : ofChars? p.text.toList = some p.number :=
  ofChars?_of_signed p.written p.isDigit p.signed_text

theorem eq_of_text (h : p.text = q.text) : p = q := by
  have hread := q.ofChars?_text
  rw [← h, p.ofChars?_text, Option.some.injEq] at hread
  exact eq_of_number hread

theorem mem_text (h : c ∈ p.text.toList) : c = '-' ∨ c = '.' ∨ c.isDigit := by
  rw [text, String.toList_ofList] at h
  split at h
  · rcases List.mem_cons.1 h with rfl | h
    · exact .inl rfl
    · exact .inr (mem_pointed p.isDigit h)
  · exact .inr (mem_pointed p.isDigit h)

end Plain

/-! ### Reading in any notation -/

theorem commonDigit_of_isDigit (h : c.isDigit) : commonDigit c = c := by
  have hbounds := isDigit_iff.1 h
  have hcode : '0'.toNat = 48 := rfl
  rw [commonDigit, digit?_of_isDigit h]
  apply Char.toNat_inj.1
  rw [Nat.toNat_digitChar_of_lt_ten (by omega)]
  omega

theorem isBlank_of_isDigit (h : c.isDigit) : isBlank c = false := by
  have hbounds := isDigit_iff.1 h
  simp only [isBlank, Bool.or_eq_false_iff, Bool.and_eq_false_iff, decide_eq_false_iff_not, beq_eq_false_iff_ne]
  omega

theorem toLower_of_isDigit (h : c.isDigit) : c.toLower = c := by
  have hbounds := isDigit_iff.1 h
  have hupper : ¬('A'.val ≤ c.val) := by
    rw [UInt32.le_iff_toNat_le]
    exact not_le.2 (Nat.lt_of_le_of_lt hbounds.2 (by decide))
  exact dif_neg fun hrange => hupper hrange.1

namespace Notation

theorem cleaned_text (p : Plain) : cleaned p.text = p.text.toList := by
  have hblank : ∀ c ∈ p.text.toList, isBlank c = false := by
    intro c hc
    rcases p.mem_text hc with rfl | rfl | hdigit
    · decide
    · decide
    · exact isBlank_of_isDigit hdigit
  have hunderscore : ∀ c ∈ p.text.toList, (c != '_') = true := by
    intro c hc
    rw [bne_iff_ne]
    rintro rfl
    rcases p.mem_text hc with h | h | h <;> cases h
  have hcommon : ∀ c ∈ p.text.toList, commonDigit c = c := by
    intro c hc
    rcases p.mem_text hc with rfl | rfl | hdigit
    · decide
    · decide
    · exact commonDigit_of_isDigit hdigit
  rw [cleaned, strip_of_none hblank, List.filter_eq_self.2 hunderscore, List.map_congr_left hcommon, List.map_id']

theorem word?_of_isDigit (h : c.isDigit) (negative : Bool) (cs : List Char) : word? negative (c :: cs) = none := by
  have hne {d : Char} (hd : d.isDigit = false) : c ≠ d := by
    rintro rfl
    rw [hd] at h
    cases h
  rw [word?, List.map_cons, toLower_of_isDigit h]
  split
  · rename_i heq
    exact absurd (List.cons.inj heq).1 (hne (by decide))
  · rename_i heq
    exact absurd (List.cons.inj heq).1 (hne (by decide))
  · rename_i heq
    exact absurd (List.cons.inj heq).1 (hne (by decide))
  · rename_i heq
    exact absurd (List.cons.inj heq).1 (hne (by decide))
  · rfl

theorem ofText?_text {p : Plain} (h : isWritable p.number) : ofText? p.text = some (.number p.number) := by
  have hword : word? p.negative (pointed p.whole p.fraction) = none := by
    obtain ⟨first, cs, hpointed, hfirst⟩ := p.exists_cons_pointed
    rw [hpointed]
    exact word?_of_isDigit hfirst p.negative cs
  simp only [ofText?, cleaned_text, p.signed_text, hword, p.ofChars?_text, Option.bind_some, if_pos h]

end Notation

end UtilityCss.Decimal
