/-
  QuickApi.Lib.DecimalContext

  The part of decimal arithmetic that depends on a context: rounding, and
  `quantize` of a finite number.  A number is its sign, its coefficient and its
  exponent.
-/

import Mathlib.Algebra.Order.Field.Power
import Mathlib.Algebra.Order.Field.Rat
import Mathlib.Tactic.Linarith
import Mathlib.Tactic.Positivity
import Mathlib.Tactic.Ring

namespace QuickApi.Lib

-- ============================================================================
-- Rounding
-- ============================================================================

inductive Rounding where
  | ceiling
  | floor
  | up
  | down
  | halfUp
  | halfDown
  | halfEven
  | zeroFiveUp
deriving DecidableEq, Repr

namespace Rounding

variable (mode : Rounding) (negative : Bool)

/-- Whether the quotient of a division by `unit` is rounded away from zero. -/
def goesUp (unit quotient remainder : Nat) : Bool :=
  match mode with
  | .ceiling => remainder ≠ 0 && !negative
  | .floor => remainder ≠ 0 && negative
  | .up => remainder ≠ 0
  | .down => false
  | .halfUp => remainder ≠ 0 && unit ≤ 2 * remainder
  | .halfDown => remainder ≠ 0 && unit < 2 * remainder
  | .halfEven =>
      remainder ≠ 0 && (unit < 2 * remainder || (unit == 2 * remainder && quotient % 2 == 1))
  | .zeroFiveUp => remainder ≠ 0 && quotient % 5 == 0

theorem goesUp_zero (unit quotient : Nat) : mode.goesUp negative unit quotient 0 = false := by
  cases mode <;> simp [goesUp]

/-- The rounded quotient. -/
def divide (coefficient unit : Nat) : Nat :=
  if mode.goesUp negative unit (coefficient / unit) (coefficient % unit) then coefficient / unit + 1
  else coefficient / unit

/-- A multiple of the unit is not rounded. -/
theorem divide_mul (m : Nat) {unit : Nat} (hunit : 0 < unit) :
    mode.divide negative (m * unit) unit = m := by
  rw [divide, Nat.mul_mod_left, goesUp_zero, Nat.mul_div_cancel m hunit]
  rfl

/-- Rounding stays at or below a bound that is a multiple of the unit. -/
theorem divide_le {coefficient m unit : Nat} (hle : coefficient ≤ m * unit) :
    mode.divide negative coefficient unit ≤ m := by
  have hdiv : unit * (coefficient / unit) + coefficient % unit = coefficient :=
    Nat.div_add_mod coefficient unit
  have hquotient : coefficient / unit ≤ m := Nat.div_le_of_le_mul (by rwa [Nat.mul_comm])
  unfold divide
  split
  · next hup =>
    have hrest : coefficient % unit ≠ 0 := by
      intro hzero
      rw [hzero, goesUp_zero] at hup
      cases hup
    by_contra hover
    have heq : coefficient / unit = m := by omega
    rw [heq, Nat.mul_comm] at hdiv
    omega
  · exact hquotient

end Rounding

-- ============================================================================
-- Contexts
-- ============================================================================

/-- The signals of the operations below. -/
inductive DecimalSignal where
  | invalidOperation
  | subnormal
  | inexact
  | rounded
deriving DecidableEq, Repr

/-- `Context`: precision, rounding, the range of exponents, and the signals that raise. -/
structure DecimalContext where
  prec : Nat
  rounding : Rounding
  emin : Int
  emax : Int
  traps : DecimalSignal → Bool

namespace DecimalContext

variable (context : DecimalContext)

/-- A signal raises where it is trapped. -/
def signal (s : DecimalSignal) : Except DecimalSignal Unit :=
  if context.traps s then .error s else .ok ()

/-- `Etiny()` -/
def etiny : Int := context.emin - context.prec + 1

/-- The number of decimal digits. -/
def digitCount (n : Nat) : Nat := (Nat.toDigits 10 n).length

/-- The exponent of the first digit. -/
def adjusted (coefficient : Nat) (exponent : Int) : Int := digitCount coefficient + exponent - 1

/-- The coefficient for another exponent. -/
def rescale (mode : Rounding) (negative : Bool) (coefficient : Nat) (exponent target : Int) : Nat :=
  if target ≤ exponent then coefficient * 10 ^ (exponent - target).toNat
  else mode.divide negative coefficient (10 ^ (target - exponent).toNat)

/-- Powers of ten at a lower exponent. -/
theorem zpow_eq_pow_mul {exponent target : Int} (h : target ≤ exponent) :
    (10 : ℚ) ^ exponent = 10 ^ (exponent - target).toNat * 10 ^ target := by
  have hsum : exponent = ((exponent - target).toNat : Int) + target := by omega
  conv_lhs => rw [hsum]
  rw [zpow_add₀ (by norm_num), zpow_natCast]

/-- A number that is a multiple of the new unit is not rounded. -/
theorem rescale_eq {mode : Rounding} {negative : Bool} {coefficient m : Nat}
    {exponent target : Int} (h : (coefficient : ℚ) * 10 ^ exponent = m * 10 ^ target) :
    rescale mode negative coefficient exponent target = m := by
  unfold rescale
  split
  · next hle =>
    have hpos : (10 : ℚ) ^ target ≠ 0 := by positivity
    rw [zpow_eq_pow_mul hle, ← mul_assoc] at h
    exact_mod_cast mul_right_cancel₀ hpos h
  · next hlt =>
    have hpos : (10 : ℚ) ^ exponent ≠ 0 := by positivity
    rw [zpow_eq_pow_mul (by omega : exponent ≤ target), ← mul_assoc] at h
    have hmul : coefficient = m * 10 ^ (target - exponent).toNat := by
      exact_mod_cast mul_right_cancel₀ hpos h
    rw [hmul]
    exact mode.divide_mul negative m (by positivity)

/-- Rounding stays at or below a bound that is a multiple of the new unit. -/
theorem rescale_le {mode : Rounding} {negative : Bool} {coefficient m : Nat}
    {exponent target : Int} (h : (coefficient : ℚ) * 10 ^ exponent ≤ m * 10 ^ target) :
    rescale mode negative coefficient exponent target ≤ m := by
  unfold rescale
  split
  · next hle =>
    have hpos : (0 : ℚ) < 10 ^ target := by positivity
    rw [zpow_eq_pow_mul hle, ← mul_assoc] at h
    exact_mod_cast le_of_mul_le_mul_right h hpos
  · next hlt =>
    have hpos : (0 : ℚ) < 10 ^ exponent := by positivity
    rw [zpow_eq_pow_mul (by omega : exponent ≤ target), ← mul_assoc] at h
    have hmul : coefficient ≤ m * 10 ^ (target - exponent).toNat := by
      exact_mod_cast le_of_mul_le_mul_right h hpos
    exact mode.divide_le negative hmul

/-- `quantize` of a finite number: the coefficient for the exponent `target`, or `none` for the
    NaN that an untrapped `InvalidOperation` leaves. -/
def quantize (negative : Bool) (coefficient : Nat) (exponent target : Int) :
    Except DecimalSignal (Option Nat) := do
  let result := rescale context.rounding negative coefficient exponent target
  if target < context.etiny ∨ context.emax < target ∨ context.emax < adjusted result target ∨
      context.prec < digitCount result then
    context.signal .invalidOperation
    pure none
  else
    if result ≠ 0 ∧ adjusted result target < context.emin then context.signal .subnormal
    if exponent < target then
      if result * 10 ^ (target - exponent).toNat ≠ coefficient then context.signal .inexact
      context.signal .rounded
    pure (some result)

/-- The result fits into the context. -/
structure Fits (result : Nat) (target : Int) : Prop where
  etiny_le : context.etiny ≤ target
  le_emax : target ≤ context.emax
  emin_le : context.emin ≤ adjusted result target
  adjusted_le : adjusted result target ≤ context.emax
  digits_le : digitCount result ≤ context.prec

variable {context}

/-- Where the result fits and loss of digits is not trapped, `quantize` raises nothing. -/
theorem quantize_eq_ok {negative : Bool} {coefficient : Nat} {exponent target : Int}
    (hfits : context.Fits (rescale context.rounding negative coefficient exponent target) target)
    (hinexact : context.traps .inexact = false) (hrounded : context.traps .rounded = false) :
    context.quantize negative coefficient exponent target =
      .ok (some (rescale context.rounding negative coefficient exponent target)) := by
  have hetiny := hfits.etiny_le
  have hemax := hfits.le_emax
  have hemin := hfits.emin_le
  have hadjusted := hfits.adjusted_le
  have hdigits := hfits.digits_le
  unfold quantize
  rw [if_neg (by omega), if_neg (by omega)]
  simp only [signal, hinexact, hrounded]
  split
  · split <;> rfl
  · rfl

end DecimalContext

end QuickApi.Lib
