import UtilityCss.Proofs.PlainNumbers

/-!
# Numbers as they are written

Every decimal is written as the plain number of its rounded value. Just the representable ones are written without
loss: the text is read as the number that was meant, and two decimals have one text if and only if they stand for the
same number.
-/

namespace UtilityCss.Decimal

variable {d e : Decimal} {digits : List Char}

/-! ### Placing the point -/

def positional (digits : List Char) (exponent : Int) : List Char :=
  if 0 ≤ exponent then digits ++ List.replicate exponent.toNat '0' else placePoint digits (-exponent).toNat

namespace IsSignificant

theorem head?_append_ne (h : IsSignificant digits) (cs : List Char) : (digits ++ cs).head? ≠ some '0' := by
  rw [List.head?_append_of_ne_nil _ h.written]
  exact h.first

theorem exists_placePoint (h : IsSignificant digits) (places : Nat) : ∃ (zeros : Nat) (whole fraction : List Char),
    placePoint digits places = whole ++ '.' :: fraction ∧ whole ++ fraction = List.replicate zeros '0' ++ digits ∧
      fraction.length = places ∧ whole ≠ [] ∧ (whole.head? = some '0' → whole = ['0']) := by
  let padded := List.replicate (places + 1 - digits.length) '0' ++ digits
  have hpadded : padded = List.replicate (places + 1 - digits.length) '0' ++ digits := rfl
  have hlength : padded.length = places + 1 - digits.length + digits.length := by
    rw [hpadded, List.length_append, List.length_replicate]
  have hleading (hzero : (padded.take (padded.length - places)).head? = some '0') :
      padded.take (padded.length - places) = ['0'] := by
    by_cases hlong : places < digits.length
    · have hnone : padded = digits := by
        rw [hpadded, Nat.sub_eq_zero_of_le hlong, List.replicate_zero, List.nil_append]
      rw [List.head?_take, if_neg (by omega), hnone] at hzero
      exact absurd hzero h.first
    · have hone : padded.length - places = 1 := by omega
      have hsome : places + 1 - digits.length = places - digits.length + 1 := by omega
      rw [hone, hpadded, hsome, List.replicate_succ]
      rfl
  refine ⟨places + 1 - digits.length, padded.take (padded.length - places), padded.drop (padded.length - places),
    rfl, List.take_append_drop _ _, ?_, ?_, hleading⟩
  · rw [List.length_drop]
    omega
  · apply List.ne_nil_of_length_pos
    rw [List.length_take]
    omega

theorem isDigit_zeros {zeros : Nat} : ∀ c ∈ List.replicate zeros '0', c.isDigit := by
  intro c hc
  rw [List.eq_of_mem_replicate hc]
  rfl

theorem exists_plain_whole (h : IsSignificant digits) (negative : Bool) (zeros : Nat) : ∃ p : Plain,
    p.negative = negative ∧ pointed p.whole p.fraction = digits ++ List.replicate zeros '0' ∧
      (p.number.coefficient : ℚ) * 10 ^ p.number.exponent = Nat.ofDigitChars 10 digits 0 * 10 ^ (zeros : Int) := by
  have hisDigit : ∀ c ∈ digits ++ List.replicate zeros '0' ++ [], c.isDigit := by
    rw [List.append_nil]
    exact List.forall_mem_append.2 ⟨h.isDigit, isDigit_zeros⟩
  have hwritten : digits ++ List.replicate zeros '0' ≠ [] := List.append_ne_nil_of_left_ne_nil h.written _
  have hfirst := h.head?_append_ne (List.replicate zeros '0')
  have hne : digits ++ List.replicate zeros '0' ≠ ['0'] := fun heq => hfirst (by rw [heq, List.head?_cons])
  have hvalue : Nat.ofDigitChars 10 (digits ++ List.replicate zeros '0' ++ []) 0 =
      Nat.ofDigitChars 10 digits 0 * 10 ^ zeros := by
    rw [List.append_nil, ofDigitChars_append_zeros]
  refine ⟨⟨negative, digits ++ List.replicate zeros '0', [], hisDigit, hwritten, fun hzero => absurd hzero hfirst,
    by simp, fun _ => .inl hne⟩, rfl, rfl, ?_⟩
  simp only [Plain.number, hvalue, cast_mul_zeros]
  simp

theorem exists_plain_point (h : IsSignificant digits) (negative : Bool) {places : Nat} (hpos : 0 < places) :
    ∃ p : Plain, p.negative = negative ∧ pointed p.whole p.fraction = placePoint digits places ∧
      (p.number.coefficient : ℚ) * 10 ^ p.number.exponent = Nat.ofDigitChars 10 digits 0 * 10 ^ (-places : Int) := by
  obtain ⟨zeros, whole, fraction, hplaced, hall, hplaces, hwritten, hleading⟩ := h.exists_placePoint places
  have hisDigit : ∀ c ∈ whole ++ fraction, c.isDigit := by
    rw [hall]
    exact List.forall_mem_append.2 ⟨isDigit_zeros, h.isDigit⟩
  have hfraction : fraction ≠ [] := by
    apply List.ne_nil_of_length_pos
    omega
  have htrailing : fraction.getLast? ≠ some '0' := by
    rw [← List.getLast?_append_of_ne_nil whole hfraction, hall, List.getLast?_append_of_ne_nil _ h.written]
    exact h.last
  refine ⟨⟨negative, whole, fraction, hisDigit, hwritten, hleading, htrailing, fun _ => .inr hfraction⟩, rfl,
    (pointed_of_ne_nil hfraction).trans hplaced.symm, ?_⟩
  simp only [Plain.number, hall, ofDigitChars_zeros_append, hplaces]

theorem exists_plain (h : IsSignificant digits) (negative : Bool) (exponent : Int) : ∃ p : Plain,
    p.negative = negative ∧ pointed p.whole p.fraction = positional digits exponent ∧
      (p.number.coefficient : ℚ) * 10 ^ p.number.exponent = Nat.ofDigitChars 10 digits 0 * 10 ^ exponent := by
  rw [positional]
  split
  · rename_i hexponent
    have hplain := h.exists_plain_whole negative exponent.toNat
    rwa [Int.toNat_of_nonneg hexponent] at hplain
  · rename_i hexponent
    have hplain := h.exists_plain_point negative (show 0 < (-exponent).toNat by omega)
    rwa [Int.toNat_of_nonneg (by omega), Int.neg_neg] at hplain

end IsSignificant

/-! ### Writing a decimal -/

theorem render_eq (d : Decimal) : d.render =
    let kept := significantDigits d.rounded.coefficient
    let plain := positional kept.1 (d.rounded.exponent + kept.2)
    if kept.1.isEmpty then "0" else String.ofList (if d.rounded.negative then '-' :: plain else plain) := rfl

theorem exists_plain (d : Decimal) : ∃ p : Plain, d.render = p.text ∧ p.number.value = d.rounded.value := by
  rw [render_eq]
  by_cases hzero : d.rounded.coefficient = 0
  · refine ⟨Plain.zero, ?_, ?_⟩
    · rw [hzero]
      rfl
    · rw [value_eq_zero_iff.2 hzero, value_eq_zero_iff]
      rfl
  · have hsignificant := isSignificant_of_pos (Nat.pos_of_ne_zero hzero)
    obtain ⟨p, hnegative, hpointed, hvalue⟩ := hsignificant.exists_plain d.rounded.negative
      (d.rounded.exponent + (significantDigits d.rounded.coefficient).2)
    refine ⟨p, ?_, value_congr hnegative ?_⟩
    · dsimp only
      rw [if_neg (by simpa using hsignificant.written), Plain.text, hnegative, hpointed]
    · rw [hvalue, ← cast_mul_zeros, ofDigitChars_significantDigits]

theorem render_congr (hd : IsRepresentable d.value) (h : d.value = e.value) : d.render = e.render := by
  obtain ⟨p, htext, hvalue⟩ := exists_plain d
  obtain ⟨q, htext', hvalue'⟩ := exists_plain e
  rw [value_rounded hd] at hvalue
  rw [value_rounded (h ▸ hd), ← h] at hvalue'
  rw [htext, htext', Plain.eq_of_value (hvalue.trans hvalue'.symm)]

theorem renderWithin_eq (h : IsRepresentable d.value) : d.renderWithin = .ok d.render := by
  rw [renderWithin]
  by_cases hzero : d.coefficient = 0
  · obtain ⟨p, htext, hvalue⟩ := exists_plain d
    rw [value_rounded h, value_eq_zero_iff.2 hzero] at hvalue
    rw [if_pos hzero, htext, Plain.text_eq_zero (value_eq_zero_iff.1 hvalue)]
  · have hkept := value_kept h hzero
    have hzero' : d.kept.coefficient ≠ 0 := by
      rwa [Ne, ← value_eq_zero_iff, hkept, value_eq_zero_iff]
    have hwithin : ¬(greatestMagnitude < d.magnitude ∨ greatestMagnitude < d.kept.magnitude) := by
      have hfirst := h.magnitude_le hzero
      have hsecond := (hkept ▸ h).magnitude_le hzero'
      omega
    rw [if_neg hzero, if_neg hwithin, render_congr h hkept.symm]

/-! ### The numbers that are written without loss -/

theorem roundHalfEven_le (num den : Nat) : roundHalfEven num den ≤ num / den + 1 := by
  rw [roundHalfEven]
  split
  · exact Nat.le_add_right _ 1
  · exact Nat.le_refl _

theorem isRepresentable_kept (h : d.kept.magnitude ≤ greatestMagnitude) : IsRepresentable d.kept.value := by
  by_cases hlong : (Nat.toDigits 10 d.coefficient).length < d.excess
  · rw [kept, if_pos hlong]
    exact isRepresentable_value (by decide) (by decide) (by decide)
  · have hkept : d.kept = { d with
        coefficient := roundHalfEven d.coefficient (tenTo d.excess), exponent := d.exponent + d.excess } :=
      if_neg hlong
    have hleast : leastExponent ≤ d.kept.exponent := by
      rw [hkept]
      simp only [excess]
      omega
    have hle : d.kept.coefficient ≤ 10 ^ precision := by
      have hlength : (Nat.toDigits 10 d.coefficient).length ≤ precision + d.excess := by
        rw [excess]
        omega
      have hlt := (Nat.length_toDigits_le_iff (by decide) (Nat.add_pos_left (by decide) _)).1 hlength
      rw [Nat.pow_add, ← Nat.div_lt_iff_lt_mul (by positivity)] at hlt
      rw [hkept]
      exact (roundHalfEven_le _ _).trans hlt
    rcases hle.lt_or_eq with hlt | heq
    · exact isRepresentable_value hlt hleast h
    · -- Rounding up can make a power of ten, which has one digit more than the precision.
      let one : Decimal := { negative := d.kept.negative, coefficient := 1, exponent := d.kept.exponent + precision }
      have hform : (d.kept.coefficient : ℚ) * 10 ^ d.kept.exponent =
          (1 : Nat) * 10 ^ (d.kept.exponent + (precision : Int)) := by
        rw [heq, ← cast_mul_zeros, Nat.one_mul]
      have hvalue : d.kept.value = one.value := value_congr rfl hform
      have hmagnitude : one.magnitude < greatestMagnitude + 1 := by
        rw [← abs_value_lt_iff one_ne_zero, ← hvalue, abs_value_lt_iff (heq ▸ by decide)]
        exact Int.lt_add_one_of_le h
      rw [hvalue]
      exact isRepresentable_value (Nat.one_lt_pow (by decide) (by decide))
        (hleast.trans (Int.le_add_of_nonneg_right (by decide))) (Int.le_of_lt_add_one hmagnitude)

theorem isRepresentable_iff_exact (d : Decimal) : IsRepresentable d.value ↔
    ∃ p : Plain, (Notation.number d).render = .ok p.text ∧ p.number.value = d.value := by
  constructor
  · intro h
    obtain ⟨p, htext, hvalue⟩ := exists_plain d
    exact ⟨p, htext ▸ renderWithin_eq h, hvalue.trans (value_rounded h)⟩
  · rintro ⟨p, hwritten, hvalue⟩
    have hwithin : d.renderWithin = .ok p.text := hwritten
    rw [renderWithin] at hwithin
    split at hwithin
    · rename_i hzero
      rw [value_eq_zero_iff.2 hzero]
      exact isRepresentable_zero
    · split at hwithin
      · cases hwithin
      · rename_i hmagnitude
        have hkept := isRepresentable_kept (not_lt.1 fun hgreater => hmagnitude (.inr hgreater))
        obtain ⟨q, htext, hvalue'⟩ := exists_plain d.kept
        rw [← Plain.eq_of_text (htext.symm.trans (Except.ok.inj hwithin)), hvalue', value_rounded hkept] at hvalue
        exact hvalue ▸ hkept

/-! ### Reading what was written -/

theorem leastExponent_le_number {p : Plain} (h : IsRepresentable p.number.value) :
    leastExponent ≤ p.number.exponent := by
  obtain ⟨coefficient, exponent, hvalue, -, hleast⟩ := h.exists_form
  obtain ⟨zeros, ⟨hexponent, -⟩ | ⟨hexponent, hcoefficient⟩⟩ := exists_zeros hvalue
  · omega
  · by_cases hnone : zeros = 0
    · omega
    · rw [Plain.exponent_eq_zero hnone hcoefficient]
      decide

theorem isWritable_number {p : Plain} (h : IsRepresentable p.number.value) : isWritable p.number := by
  have hleast := leastExponent_le_number h
  have hless : leastWritten ≤ leastExponent := by decide
  have hgreatest : p.number.magnitude ≤ greatestWritten := by
    by_cases hzero : p.number.coefficient = 0
    · rw [Plain.number_eq_zero hzero]
      decide
    · exact (h.magnitude_le hzero).trans (by decide)
  rw [isWritable, Bool.and_eq_true, decide_eq_true_eq, decide_eq_true_eq]
  exact ⟨hless.trans hleast, hgreatest⟩

/-- A representable number is written in plain digits without loss, and it has only one text. -/
theorem render_canonical (hd : IsRepresentable d.value) (he : IsRepresentable e.value) :
    (∃ p : Plain, (Notation.number d).render = .ok p.text ∧ d.render = p.text ∧
      Notation.ofText? p.text = some (.number p.number) ∧ p.number.value = d.value) ∧
    ((Notation.number d).render = (Notation.number e).render ↔ d.value = e.value) := by
  obtain ⟨p, hwritten, hvalue⟩ := (isRepresentable_iff_exact d).1 hd
  obtain ⟨q, hwritten', hvalue'⟩ := (isRepresentable_iff_exact e).1 he
  have htext : d.render = p.text := Except.ok.inj ((renderWithin_eq hd).symm.trans hwritten)
  have hread : Notation.ofText? p.text = some (.number p.number) :=
    Notation.ofText?_text (isWritable_number (hvalue ▸ hd))
  refine ⟨⟨p, hwritten, htext, hread, hvalue⟩, ?_⟩
  rw [hwritten, hwritten', Except.ok.injEq, ← hvalue, ← hvalue']
  constructor
  · intro hsame
    rw [Plain.eq_of_text hsame]
  · intro hsame
    rw [Plain.eq_of_value hsame]

theorem render_canonical_quarter :
    IsRepresentable (value ⟨true, 25 * 10 ^ 29, -31⟩) ∧ IsRepresentable (value ⟨true, 25, -2⟩) ∧
    (∃ p : Plain, (Notation.number ⟨true, 25 * 10 ^ 29, -31⟩).render = .ok p.text ∧
      render ⟨true, 25 * 10 ^ 29, -31⟩ = p.text ∧
      Notation.ofText? p.text = some (.number p.number) ∧ p.number.value = value ⟨true, 25 * 10 ^ 29, -31⟩) ∧
    ((Notation.number ⟨true, 25 * 10 ^ 29, -31⟩).render = (Notation.number ⟨true, 25, -2⟩).render ↔
      value ⟨true, 25 * 10 ^ 29, -31⟩ = value ⟨true, 25, -2⟩) := by
  have hshort : IsRepresentable (value ⟨true, 25, -2⟩) :=
    isRepresentable_value (by decide) (by decide) (by decide)
  have hsame : value ⟨true, 25 * 10 ^ 29, -31⟩ = value ⟨true, 25, -2⟩ :=
    value_congr rfl (cast_mul_zeros 25 29 (-31))
  have hlong : IsRepresentable (value ⟨true, 25 * 10 ^ 29, -31⟩) := hsame ▸ hshort
  exact ⟨hlong, hshort, render_canonical hlong hshort⟩

example : (Notation.number ⟨true, 25 * 10 ^ 29, -31⟩).render.toOption = some "-0.25" := by decide +kernel

end UtilityCss.Decimal
