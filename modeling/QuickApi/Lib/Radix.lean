/-
  QuickApi.Lib.Radix

  Numbers of a fixed width in a base, the most significant digit first, and
  the numerals of a number up to base sixteen.  Both are read back as they
  were written.
-/

import Mathlib.Data.List.Basic
import Mathlib.Tactic.IntervalCases

namespace QuickApi.Lib

-- ============================================================================
-- Fixed width
-- ============================================================================

/-- The lowest `width` digits of `n`. -/
def toRadix (base : Nat) : Nat → Nat → List Nat
  | 0, _ => []
  | width + 1, n => toRadix base width (n / base) ++ [n % base]

/-- The number with these digits. -/
def ofRadix (base : Nat) (digits : List Nat) : Nat := digits.foldl (fun n d => n * base + d) 0

theorem toRadix_length (base width n : Nat) : (toRadix base width n).length = width := by
  induction width generalizing n with
  | zero => rfl
  | succ width ih => simp [toRadix, ih]

theorem toRadix_lt {base : Nat} (hbase : 0 < base) {width n d : Nat}
    (hd : d ∈ toRadix base width n) : d < base := by
  induction width generalizing n with
  | zero => simp [toRadix] at hd
  | succ width ih =>
      rw [toRadix, List.mem_append, List.mem_singleton] at hd
      obtain hd | rfl := hd
      · exact ih hd
      · exact Nat.mod_lt n hbase

theorem ofRadix_snoc (base : Nat) (digits : List Nat) (d : Nat) :
    ofRadix base (digits ++ [d]) = ofRadix base digits * base + d := by
  simp [ofRadix]

theorem ofRadix_toRadix (base width n : Nat) :
    ofRadix base (toRadix base width n) = n % base ^ width := by
  induction width generalizing n with
  | zero => simp [toRadix, ofRadix, Nat.mod_one]
  | succ width ih =>
      have hmod : n % (base * base ^ width) = n % base + base * (n / base % base ^ width) :=
        Nat.mod_mul
      rw [toRadix, ofRadix_snoc, ih, Nat.pow_succ, Nat.mul_comm (base ^ width), hmod]
      rw [Nat.mul_comm base, Nat.add_comm]

-- ============================================================================
-- Numerals
-- ============================================================================

/-- The value of a digit of a base up to sixteen, in either case. -/
def digitValue (c : Char) : Option Nat :=
  if '0' ≤ c ∧ c ≤ '9' then some (c.toNat - '0'.toNat)
  else if 'a' ≤ c ∧ c ≤ 'f' then some (c.toNat - 'a'.toNat + 10)
  else if 'A' ≤ c ∧ c ≤ 'F' then some (c.toNat - 'A'.toNat + 10)
  else none

/-- Append a digit to a number. -/
def readDigit (base n : Nat) (c : Char) : Option Nat :=
  (digitValue c).bind fun d => if d < base then some (n * base + d) else none

/-- The number that a text of digits alone denotes (`int(text, base)`). -/
def readNumeral (base : Nat) (text : List Char) : Option Nat :=
  if text = [] then none else text.foldlM (readDigit base) 0

theorem digitValue_digitChar {d : Nat} (hd : d < 16) : digitValue d.digitChar = some d := by
  interval_cases d <;> decide

theorem foldlM_toDigits {base : Nat} (hbase : 1 < base) (hbase' : base ≤ 16) (n : Nat) :
    (Nat.toDigits base n).foldlM (readDigit base) 0 = some n := by
  induction n using Nat.strong_induction_on with
  | h n ih =>
      rw [Nat.toDigits_eq_if hbase]
      split
      · next hlt => simp [readDigit, digitValue_digitChar (by omega : n < 16), hlt]
      · next hge =>
          have hlt : n % base < base := Nat.mod_lt n (by omega)
          have hdiv : n / base < n := Nat.div_lt_self (by omega) hbase
          have hvalue : n / base * base + n % base = n := by
            rw [Nat.mul_comm]
            exact Nat.div_add_mod n base
          rw [List.foldlM_append, ih _ hdiv]
          simp [readDigit, digitValue_digitChar (by omega : n % base < 16), hlt, hvalue]

theorem readNumeral_toDigits {base : Nat} (hbase : 1 < base) (hbase' : base ≤ 16) (n : Nat) :
    readNumeral base (Nat.toDigits base n) = some n := by
  rw [readNumeral, if_neg Nat.toDigits_ne_nil, foldlM_toDigits hbase hbase']

/-- The characters of a numeral are digits. -/
theorem digitValue_of_mem_toDigits {base : Nat} (hbase : 1 < base) (hbase' : base ≤ 16) {n : Nat}
    {c : Char} (hc : c ∈ Nat.toDigits base n) : (digitValue c).isSome := by
  induction n using Nat.strong_induction_on with
  | h n ih =>
      rw [Nat.toDigits_eq_if hbase] at hc
      split at hc
      · rw [List.mem_singleton.mp hc, digitValue_digitChar (by omega)]
        rfl
      · rw [List.mem_append, List.mem_singleton] at hc
        obtain hc | rfl := hc
        · exact ih _ (Nat.div_lt_self (by omega) hbase) hc
        · have hlt : n % base < base := Nat.mod_lt n (by omega)
          rw [digitValue_digitChar (by omega)]
          rfl

end QuickApi.Lib
