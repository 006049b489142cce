/-
  QuickApi.Lib.DecimalText

  Scientific notation with an exact significand.  Every nonzero natural
  number is a significand that is not a multiple of ten times a power of ten;
  the pair is unique, also across exponents, and its decimal digits are the
  digits of the number without the trailing zeros.
-/

import Mathlib.Data.List.DropRight
import Mathlib.Data.Nat.Multiplicity
import Mathlib.Data.Rat.Defs
import Mathlib.Algebra.Order.Field.Rat
import Mathlib.Tactic.FieldSimp
import Mathlib.Tactic.Linarith
import Mathlib.Tactic.Positivity
import Mathlib.Tactic.IntervalCases

namespace QuickApi.Lib

/-- The digits without trailing zeros (`rstrip('0')`). -/
def rstripZeros (digits : List Char) : List Char := digits.rdropWhile (· == '0')

/-- Splitting off the powers of ten. -/
theorem exists_significand {c : Nat} (hc : c ≠ 0) :
    ∃ m k, c = 10 ^ k * m ∧ ¬ 10 ∣ m := by
  obtain ⟨k, m, hm, hcm⟩ := Nat.exists_eq_pow_mul_and_not_dvd hc 10 (by decide)
  exact ⟨m, k, hcm, hm⟩

/-- Multiplying by ten appends a zero. -/
theorem toDigits_ten_pow_mul {m : Nat} (hm : m ≠ 0) (k : Nat) :
    Nat.toDigits 10 (10 ^ k * m) = Nat.toDigits 10 m ++ List.replicate k '0' := by
  induction k with
  | zero => simp
  | succ k ih =>
      have hpos : 0 < 10 ^ k * m := Nat.mul_pos (Nat.pow_pos (by decide)) (Nat.pos_of_ne_zero hm)
      have hstep := Nat.toDigits_append_toDigits (b := 10) (d := 0) (by decide) hpos (by decide)
      rw [show 10 ^ (k + 1) * m = 10 * (10 ^ k * m) + 0 by ring, ← hstep, ih, Nat.toDigits_zero,
        List.append_assoc, List.replicate_succ']

theorem digitChar_ne_zero {d : Nat} (hd : d < 10) (h0 : d ≠ 0) : d.digitChar ≠ '0' := by
  interval_cases d <;> first | exact absurd rfl h0 | decide

/-- The last digit of a number that is not a multiple of ten is not zero. -/
theorem rstripZeros_toDigits {m : Nat} (hm : ¬ 10 ∣ m) :
    rstripZeros (Nat.toDigits 10 m) = Nat.toDigits 10 m := by
  have hlast : (m % 10).digitChar ≠ '0' :=
    digitChar_ne_zero (Nat.mod_lt _ (by decide)) fun h => hm (Nat.dvd_of_mod_eq_zero h)
  rw [rstripZeros, Nat.toDigits_eq_if (by decide)]
  split
  · next hlt =>
    rw [Nat.mod_eq_of_lt hlt] at hlast
    rw [List.rdropWhile_singleton, if_neg (by simpa using hlast)]
  · rw [List.rdropWhile_concat_neg _ _ _ (by simpa using hlast)]

theorem rstripZeros_append_zeros (digits : List Char) (k : Nat) :
    rstripZeros (digits ++ List.replicate k '0') = rstripZeros digits := by
  induction k with
  | zero => simp
  | succ k ih =>
      rw [List.replicate_succ', ← List.append_assoc, rstripZeros,
        List.rdropWhile_concat_pos _ _ _ (by simp)]
      exact ih

/-- The digits of a number without trailing zeros are the digits of its significand. -/
theorem rstripZeros_toDigits_mul {m : Nat} (hm : ¬ 10 ∣ m) (k : Nat) :
    rstripZeros (Nat.toDigits 10 (10 ^ k * m)) = Nat.toDigits 10 m := by
  have h0 : m ≠ 0 := fun h => hm (h ▸ dvd_zero 10)
  rw [toDigits_ten_pow_mul h0, rstripZeros_append_zeros, rstripZeros_toDigits hm]

theorem toDigits_injective {m n : Nat} (h : Nat.toDigits 10 m = Nat.toDigits 10 n) : m = n := by
  have := congrArg (fun l => Nat.ofDigitChars 10 l 0) h
  simpa using this

/-- Significand and exponent of a positive number are unique. -/
theorem significand_unique {m n : Nat} {e f : Int} (hm : ¬ 10 ∣ m) (hn : ¬ 10 ∣ n)
    (h : (m : ℚ) * 10 ^ e = n * 10 ^ f) : m = n ∧ e = f := by
  have key : ∀ {m n : Nat} {e f : Int}, ¬ 10 ∣ m → (m : ℚ) * 10 ^ e = n * 10 ^ f → e ≤ f →
      m = n ∧ e = f := by
    intro m n e f hm h hle
    obtain ⟨k, rfl⟩ := Int.exists_add_of_le hle
    have hten : (10 : ℚ) ^ e ≠ 0 := zpow_ne_zero _ (by norm_num)
    rw [zpow_add₀ (by norm_num), zpow_natCast, mul_comm ((10 : ℚ) ^ e), ← mul_assoc] at h
    have hmn : (m : ℚ) = n * 10 ^ k := mul_right_cancel₀ hten h
    have hmn : m = n * 10 ^ k := by exact_mod_cast hmn
    cases k with
    | zero => exact ⟨by simpa using hmn, by simp⟩
    | succ k => exact absurd ⟨n * 10 ^ k, by rw [hmn]; ring⟩ hm
  rcases le_total e f with hle | hle
  · exact key hm h hle
  · obtain ⟨h1, h2⟩ := key hn h.symm hle
    exact ⟨h1.symm, h2.symm⟩

end QuickApi.Lib
