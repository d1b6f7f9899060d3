import Mathlib.Data.Rat.Cast.Defs
import Mathlib.Tactic.NormNum
import Mathlib.Tactic.Positivity
import UtilityCss.Proofs.Digits
import UtilityCss.Utility.Colored

/-!
# Percentages and shares

An opacity is a percentage of one to three digits. The share of it is written as a decimal number, and no other text
in plain digits that writes the same number is as short.
-/

namespace UtilityCss

/-- One to three digits for a number up to a hundred. -/
structure IsPercent (text : String) (amount : Nat) : Prop where
  written : text ≠ ""
  length_le : text.length ≤ 3
  digits : ∀ c ∈ text.toList, c.isDigit
  amount_eq : amount = Nat.ofDigitChars 10 text.toList 0
  amount_le : amount ≤ 100

inductive DecimalText : String → ℚ → Prop
  | whole {digits : List Char} (hne : digits ≠ []) (hdigits : ∀ c ∈ digits, c.isDigit) :
      DecimalText (String.ofList digits) (Nat.ofDigitChars 10 digits 0)
  | point {digits fraction : List Char} (hne : digits ≠ []) (hfraction : fraction ≠ [])
      (hdigits : ∀ c ∈ digits ++ fraction, c.isDigit) :
      DecimalText (String.ofList (digits ++ '.' :: fraction))
        (Nat.ofDigitChars 10 (digits ++ fraction) 0 / 10 ^ fraction.length)

/-- No other text that writes the number is as short. -/
structure IsShortest (text : String) (number : ℚ) : Prop where
  writes : DecimalText text number
  shortest {other : String} (h : DecimalText other number) : other = text ∨ text.length < other.length

/-! ### Shares -/

theorem hundred_mul_eq_iff (written amount places : Nat) :
    (written : ℚ) / 10 ^ places = amount / 100 ↔ 100 * written = amount * 10 ^ places := by
  rw [div_eq_div_iff (by positivity) (by norm_num), Nat.mul_comm 100]
  norm_cast

namespace Decimal

def shareDigits (amount : Nat) : List Char :=
  if amount % 100 = 0 then [Nat.digitChar (amount / 100)]
  else if amount % 10 = 0 then ['0', '.', Nat.digitChar (amount / 10)]
  else ['0', '.', Nat.digitChar (amount / 10), Nat.digitChar (amount % 10)]

theorem render_hundredths : ∀ amount ≤ 100,
    (hundredths amount).render = String.ofList (shareDigits amount) := by
  decide +kernel

variable {amount : Nat}

theorem writes_shareDigits (h : amount ≤ 100) :
    DecimalText (String.ofList (shareDigits amount)) (amount / 100) := by
  have hpointed {fraction : List Char} (hne : fraction ≠ []) (hfraction : ∀ c ∈ fraction, c.isDigit)
      (hshare : 100 * Nat.ofDigitChars 10 fraction 0 = amount * 10 ^ fraction.length) :
      DecimalText (String.ofList ('0' :: '.' :: fraction)) (amount / 100) := by
    rw [← (hundred_mul_eq_iff _ _ _).2 hshare]
    have hwritten := DecimalText.point (List.cons_ne_nil '0' []) hne (List.forall_mem_cons.2 ⟨rfl, hfraction⟩)
    exact hwritten
  rw [shareDigits]
  split
  · have hlt : amount / 100 < 10 := by omega
    have hwhole := DecimalText.whole (List.cons_ne_nil _ []) (List.forall_mem_singleton.2 (isDigit_digitChar hlt))
    have hshare := (hundred_mul_eq_iff _ _ 0).2 (show 100 * (amount / 100) = amount * 10 ^ 0 by omega)
    rw [pow_zero, div_one] at hshare
    rwa [ofDigitChars_digitChar hlt, hshare] at hwhole
  · split
    · have hlt : amount / 10 < 10 := by omega
      refine hpointed (List.cons_ne_nil _ _) (List.forall_mem_singleton.2 (isDigit_digitChar hlt)) ?_
      rw [ofDigitChars_digitChar hlt, List.length_singleton]
      omega
    · have hlt : amount / 10 < 10 := by omega
      have hlt' : amount % 10 < 10 := by omega
      refine hpointed (List.cons_ne_nil _ _)
        (List.forall_mem_cons.2 ⟨isDigit_digitChar hlt, List.forall_mem_singleton.2 (isDigit_digitChar hlt')⟩) ?_
      rw [ofDigitChars_two_digitChars hlt hlt']
      simp only [List.length_cons, List.length_nil]
      omega

theorem eq_or_longer_of_whole {digits : List Char} (hne : digits ≠ []) (hdigits : ∀ c ∈ digits, c.isDigit)
    (hvalue : 100 * Nat.ofDigitChars 10 digits 0 = amount) (h : amount ≤ 100) :
    digits = shareDigits amount ∨ (shareDigits amount).length < digits.length := by
  have hlength := List.length_pos_of_ne_nil hne
  have hlt : amount / 100 < 10 := by omega
  rw [shareDigits, if_pos (by omega), List.length_singleton]
  by_cases hone : digits.length = 1
  · left
    apply eq_of_ofDigitChars hone hdigits (List.forall_mem_singleton.2 (isDigit_digitChar hlt))
    rw [ofDigitChars_digitChar hlt]
    omega
  · right
    omega

theorem eq_or_longer_of_places {digits fraction share : List Char} (hne : digits ≠ [])
    (hdigits : ∀ c ∈ digits ++ fraction, c.isDigit) (hshare : ∀ c ∈ share, c.isDigit)
    (hplaces : share.length ≤ fraction.length)
    (hvalue : share.length = fraction.length →
      Nat.ofDigitChars 10 (digits ++ fraction) 0 = Nat.ofDigitChars 10 share 0) :
    digits ++ '.' :: fraction = '0' :: '.' :: share ∨
      ('0' :: '.' :: share).length < (digits ++ '.' :: fraction).length := by
  have hlength := List.length_pos_of_ne_nil hne
  by_cases heq : digits.length = 1 ∧ share.length = fraction.length
  · obtain ⟨hone, hsame⟩ := heq
    have hall : digits ++ fraction = ['0'] ++ share := by
      apply eq_of_ofDigitChars
      · simp [hone, hsame, Nat.add_comm]
      · exact hdigits
      · exact List.forall_mem_cons.2 ⟨rfl, hshare⟩
      · rw [hvalue hsame]
        rfl
    obtain ⟨rfl, rfl⟩ := List.append_inj hall hone
    exact .inl rfl
  · right
    simp only [List.length_append, List.length_cons]
    omega

theorem eq_or_longer_of_point {digits fraction : List Char} (hne : digits ≠ []) (hfraction : fraction ≠ [])
    (hdigits : ∀ c ∈ digits ++ fraction, c.isDigit)
    (hvalue : 100 * Nat.ofDigitChars 10 (digits ++ fraction) 0 = amount * 10 ^ fraction.length)
    (h : amount ≤ 100) :
    digits ++ '.' :: fraction = shareDigits amount ∨
      (shareDigits amount).length < (digits ++ '.' :: fraction).length := by
  have hlength := List.length_pos_of_ne_nil hne
  have hplaces := List.length_pos_of_ne_nil hfraction
  rw [shareDigits]
  split
  · right
    simp only [List.length_append, List.length_cons, List.length_nil]
    omega
  · have hlt : amount / 10 < 10 := by omega
    split
    · refine eq_or_longer_of_places hne hdigits (List.forall_mem_singleton.2 (isDigit_digitChar hlt)) hplaces
        fun hsame => ?_
      rw [← hsame, List.length_singleton] at hvalue
      rw [ofDigitChars_digitChar hlt]
      omega
    · have hlt' : amount % 10 < 10 := by omega
      have htwo : 2 ≤ fraction.length := by
        by_contra hless
        rw [show fraction.length = 1 by omega] at hvalue
        omega
      refine eq_or_longer_of_places hne hdigits
        (List.forall_mem_cons.2 ⟨isDigit_digitChar hlt, List.forall_mem_singleton.2 (isDigit_digitChar hlt')⟩)
        htwo fun hsame => ?_
      rw [← hsame, List.length_cons, List.length_singleton] at hvalue
      rw [ofDigitChars_two_digitChars hlt hlt']
      omega

theorem isShortest_render_hundredths (h : amount ≤ 100) :
    IsShortest (hundredths amount).render (amount / 100) := by
  rw [render_hundredths amount h]
  refine ⟨writes_shareDigits h, fun {other} hother => ?_⟩
  have hspelled {digits : List Char}
      (heq : digits = shareDigits amount ∨ (shareDigits amount).length < digits.length) :
      String.ofList digits = String.ofList (shareDigits amount) ∨
        (String.ofList (shareDigits amount)).length < (String.ofList digits).length := by
    rw [String.length_ofList, String.length_ofList]
    exact heq.imp_left (congrArg String.ofList)
  generalize hnumber : (amount / 100 : ℚ) = number at hother
  cases hother with
  | whole hne hdigits =>
    have hvalue := (hundred_mul_eq_iff _ _ 0).1 (by rw [hnumber, pow_zero, div_one])
    exact hspelled (eq_or_longer_of_whole hne hdigits (by omega) h)
  | point hne hfraction hdigits =>
    exact hspelled (eq_or_longer_of_point hne hfraction hdigits ((hundred_mul_eq_iff _ _ _).1 hnumber.symm) h)

end Decimal

theorem IsPercent.digits?_eq {percent : String} {amount : Nat} (h : IsPercent percent amount) :
    Text.digits? 3 percent.toList = some amount := by
  refine Text.digits?_eq_some_iff.2 ⟨mt String.toList_eq_nil_iff.1 h.written, ?_, h.digits, h.amount_eq⟩
  rw [String.length_toList]
  exact h.length_le

theorem alpha?_eq_some_iff {percent share : String} : Color.alpha? percent = some share ↔
    ∃ amount, IsPercent percent amount ∧ share = (Decimal.hundredths amount).render := by
  constructor
  · intro h
    simp only [Color.alpha?, Option.bind_eq_bind, Option.bind_eq_some_iff, Text.digits?_eq_some_iff] at h
    obtain ⟨amount, ⟨hne, hlength, hdigits, hamount⟩, h⟩ := h
    rw [String.length_toList] at hlength
    split at h
    · rename_i hle
      exact ⟨amount, ⟨mt String.toList_eq_nil_iff.2 hne, hlength, hdigits, hamount, hle⟩, (Option.some.inj h).symm⟩
    · cases h
  · rintro ⟨amount, h, rfl⟩
    rw [Color.alpha?, h.digits?_eq, Option.bind_eq_bind, Option.bind_some, if_pos h.amount_le]

end UtilityCss
