import Mathlib.Data.List.DropRight
import Mathlib.Data.List.Induction
import Mathlib.Tactic.IntervalCases
import UtilityCss.Decimal
import UtilityCss.Proofs.OneLine

/-!
# Digits

The number that digits write. Digits are known from how many they are and what they write; zeros in front of them
count for nothing, and zeros behind them count tens. The digits that a number has without the zeros at its end begin
and end with another digit than zero.
-/

namespace UtilityCss

variable {digits others : List Char}

/-! ### The number that is written -/

theorem ofDigitChars_concat (digits : List Char) (c : Char) :
    Nat.ofDigitChars 10 (digits ++ [c]) 0 = 10 * Nat.ofDigitChars 10 digits 0 + (c.toNat - 48) := by
  rw [Nat.ofDigitChars_append, Nat.ofDigitChars_cons, Nat.ofDigitChars_nil]
  rfl

theorem ofDigitChars_append_zeros (digits : List Char) (zeros : Nat) :
    Nat.ofDigitChars 10 (digits ++ List.replicate zeros '0') 0 = Nat.ofDigitChars 10 digits 0 * 10 ^ zeros := by
  rw [Nat.ofDigitChars_append, Nat.ofDigitChars_replicate_zero, Nat.mul_comm]

theorem ofDigitChars_zeros_append (zeros : Nat) (digits : List Char) :
    Nat.ofDigitChars 10 (List.replicate zeros '0' ++ digits) 0 = Nat.ofDigitChars 10 digits 0 := by
  rw [Nat.ofDigitChars_append, Nat.ofDigitChars_replicate_zero, Nat.mul_zero]

theorem ofDigitChars_lt (hdigits : ∀ c ∈ digits, c.isDigit) :
    Nat.ofDigitChars 10 digits 0 < 10 ^ digits.length := by
  induction digits using List.reverseRecOn with
  | nil => decide
  | append_singleton digits c ih =>
    have hc := Text.isDigit_iff.1 (hdigits c (by simp))
    have hrest := ih fun d hd => hdigits d (List.mem_append_left _ hd)
    rw [ofDigitChars_concat, List.length_append, List.length_singleton, Nat.pow_succ]
    omega

theorem le_ofDigitChars_cons {first : Char} (hfirst : first.isDigit) (hne : first ≠ '0') (digits : List Char) :
    10 ^ digits.length ≤ Nat.ofDigitChars 10 (first :: digits) 0 := by
  have hbounds := Text.isDigit_iff.1 hfirst
  have hpos : 0 < first.toNat - '0'.toNat := by
    have hzero : first.toNat ≠ '0'.toNat := mt Char.toNat_inj.1 hne
    have hcode : '0'.toNat = 48 := rfl
    omega
  rw [Nat.ofDigitChars_cons, Nat.ofDigitChars_eq_ofDigitChars_zero, Nat.mul_zero, Nat.zero_add]
  exact Nat.le_add_right_of_le (Nat.le_mul_of_pos_right _ hpos)

theorem eq_of_ofDigitChars {digits others : List Char} (hlength : digits.length = others.length)
    (hdigits : ∀ c ∈ digits, c.isDigit) (hothers : ∀ c ∈ others, c.isDigit)
    (h : Nat.ofDigitChars 10 digits 0 = Nat.ofDigitChars 10 others 0) : digits = others := by
  induction digits using List.reverseRecOn generalizing others with
  | nil => exact (List.length_eq_zero_iff.1 hlength.symm).symm
  | append_singleton digits c ih =>
    rcases List.eq_nil_or_concat' others with rfl | ⟨others, d, rfl⟩
    · simp at hlength
    · rw [ofDigitChars_concat, ofDigitChars_concat] at h
      have hc := Text.isDigit_iff.1 (hdigits c (by simp))
      have hd := Text.isDigit_iff.1 (hothers d (by simp))
      have hlast : c = d := Char.toNat_inj.1 (by omega)
      have hrest := ih (by simpa using hlength) (fun e he => hdigits e (List.mem_append_left _ he))
        (fun e he => hothers e (List.mem_append_left _ he)) (by omega)
      rw [hrest, hlast]

theorem getLast?_eq_of_dvd (hdigits : ∀ c ∈ digits, c.isDigit) (hne : digits ≠ [])
    (hdvd : 10 ∣ Nat.ofDigitChars 10 digits 0) : digits.getLast? = some '0' := by
  obtain ⟨front, c, rfl⟩ := (List.eq_nil_or_concat' digits).resolve_left hne
  have hc := Text.isDigit_iff.1 (hdigits c (by simp))
  rw [ofDigitChars_concat] at hdvd
  have hzero : c = '0' := Char.toNat_inj.1 (show c.toNat = 48 by omega)
  rw [List.getLast?_concat, hzero]

/-! ### Single digits -/

theorem isDigit_digitChar {n : Nat} (h : n < 10) : (Nat.digitChar n).isDigit := by
  rw [Nat.isDigit_digitChar, decide_eq_true h]

theorem ofDigitChars_digitChar {n : Nat} (h : n < 10) : Nat.ofDigitChars 10 [Nat.digitChar n] 0 = n := by
  rw [Nat.ofDigitChars_cons_digitChar_of_lt_ten h, Nat.ofDigitChars_nil, Nat.mul_zero, Nat.zero_add]

theorem ofDigitChars_two_digitChars {m n : Nat} (hm : m < 10) (hn : n < 10) :
    Nat.ofDigitChars 10 [Nat.digitChar m, Nat.digitChar n] 0 = 10 * m + n := by
  rw [Nat.ofDigitChars_cons_digitChar_of_lt_ten hm, Nat.ofDigitChars_cons_digitChar_of_lt_ten hn,
    Nat.ofDigitChars_nil, Nat.mul_zero, Nat.zero_add]

theorem notMem_of_isDigit (hdigits : ∀ c ∈ digits, c.isDigit) {sign : Char} (hsign : sign.isDigit = false) :
    sign ∉ digits := by
  intro hmem
  have h := hdigits sign hmem
  rw [hsign] at h
  cases h

theorem Text.digits?_eq_some_iff {limit amount : Nat} {digits : List Char} :
    Text.digits? limit digits = some amount ↔ digits ≠ [] ∧ digits.length ≤ limit ∧
      (∀ c ∈ digits, c.isDigit) ∧ amount = Nat.ofDigitChars 10 digits 0 := by
  have hvalue : digits.foldl (fun n c => 10 * n + (c.toNat - '0'.toNat)) 0 = Nat.ofDigitChars 10 digits 0 :=
    Nat.ofDigitChars_eq_foldl.symm
  rw [Text.digits?, hvalue]
  by_cases hcond : digits ≠ [] ∧ digits.length ≤ limit ∧ ∀ c ∈ digits, c.isDigit
  · rw [if_neg (by simpa [and_assoc] using hcond), Option.some.injEq]
    exact ⟨fun h => ⟨hcond.1, hcond.2.1, hcond.2.2, h.symm⟩, fun h => h.2.2.2.symm⟩
  · rw [if_pos (by simpa [imp_iff_not_or, or_assoc] using hcond)]
    exact ⟨fun h => (Option.some_ne_none _ h.symm).elim, fun h => absurd ⟨h.1, h.2.1, h.2.2.1⟩ hcond⟩

/-! ### The digits of a number -/

theorem head?_toDigits_ne {n : Nat} (h : 0 < n) : (Nat.toDigits 10 n).head? ≠ some '0' := by
  induction n using Nat.strong_induction_on with
  | _ n ih =>
    by_cases hlt : n < 10
    · rw [Nat.toDigits_of_lt_base hlt]
      interval_cases n <;> decide
    · have hfirst := ih (n / 10) (by omega) (by omega)
      rw [Nat.toDigits_of_base_le (by decide) (by omega), List.head?_append_of_ne_nil _ Nat.toDigits_ne_nil]
      exact hfirst

namespace Decimal

/-- Digits with none that could be left out at either end. -/
structure IsSignificant (digits : List Char) : Prop where
  written : digits ≠ []
  first : digits.head? ≠ some '0'
  last : digits.getLast? ≠ some '0'
  isDigit : ∀ c ∈ digits, c.isDigit

theorem toDigits_eq_significantDigits (n : Nat) :
    Nat.toDigits 10 n = (significantDigits n).1 ++ List.replicate (significantDigits n).2 '0' := by
  have hparts : (significantDigits n).1 ++ List.rtakeWhile (· == '0') (Nat.toDigits 10 n) = Nat.toDigits 10 n :=
    List.rdropWhile_append_rtakeWhile
  have hlength := congrArg List.length hparts
  rw [List.length_append] at hlength
  have hcount : (significantDigits n).2 = (List.rtakeWhile (· == '0') (Nat.toDigits 10 n)).length := by
    have hzeros : (significantDigits n).2 = (Nat.toDigits 10 n).length - (significantDigits n).1.length := rfl
    omega
  have hall : ∀ c ∈ List.rtakeWhile (· == '0') (Nat.toDigits 10 n), c = '0' :=
    fun c hc => beq_iff_eq.1 (List.mem_rtakeWhile_imp (p := (· == '0')) hc)
  rw [hcount, ← List.eq_replicate_length.2 hall]
  exact hparts.symm

theorem ofDigitChars_significantDigits (n : Nat) :
    Nat.ofDigitChars 10 (significantDigits n).1 0 * 10 ^ (significantDigits n).2 = n := by
  rw [← ofDigitChars_append_zeros, ← toDigits_eq_significantDigits, Nat.ofDigitChars_ten_toDigits]

theorem isSignificant_of_pos {n : Nat} (h : 0 < n) : IsSignificant (significantDigits n).1 := by
  have hwritten : (significantDigits n).1 ≠ [] := by
    intro hnone
    have hvalue := ofDigitChars_significantDigits n
    rw [hnone, Nat.ofDigitChars_nil, Nat.zero_mul] at hvalue
    omega
  refine ⟨hwritten, ?_, ?_, ?_⟩
  · have hfirst := head?_toDigits_ne h
    rwa [toDigits_eq_significantDigits, List.head?_append_of_ne_nil _ hwritten] at hfirst
  · have hlast := List.rdropWhile_last_not (· == '0') (Nat.toDigits 10 n) hwritten
    rw [beq_iff_eq] at hlast
    rw [List.getLast?_eq_getLast_of_ne_nil hwritten]
    exact fun heq => hlast (Option.some.inj heq)
  · intro c hc
    exact Nat.isDigit_of_mem_toDigits (by decide) (by decide) (mem_stripEnd hc)

end Decimal

end UtilityCss
