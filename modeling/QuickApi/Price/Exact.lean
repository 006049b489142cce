/-
  QuickApi.Price.Exact

  What `validate_price` accepts: the plain decimal texts and the numbers whose
  exact value is a number of cents in the range, and no value is rounded.
-/

import QuickApi.Price.Validation
import Mathlib.Tactic.FieldSimp
import Mathlib.Tactic.Linarith
import Mathlib.Tactic.NormNum

namespace QuickApi.Price

open QuickApi.Fingerprint QuickApi.Lib

-- ============================================================================
-- Texts
-- ============================================================================

/-- A text of digits, and maybe a point and one or two more digits. -/
inductive PlainText : Text → Text → Text → Prop where
  | whole {whole : Text} (hne : whole ≠ []) (hwhole : ∀ c ∈ whole, c.isDigit = true) :
      PlainText whole whole []
  | point {whole fraction : Text} (hne : whole ≠ []) (hwhole : ∀ c ∈ whole, c.isDigit = true)
      (hlength : fraction.length = 1 ∨ fraction.length = 2)
      (hfraction : ∀ c ∈ fraction, c.isDigit = true) :
      PlainText (whole ++ '.' :: fraction) whole fraction

/-- The number that the digits before and behind the point denote. -/
def plainValue (whole fraction : Text) : ℚ :=
  Nat.ofDigitChars 10 whole 0 + Nat.ofDigitChars 10 fraction 0 / 10 ^ fraction.length

theorem span_digits {whole : Text} (rest : Text) (hwhole : ∀ c ∈ whole, c.isDigit = true)
    (hrest : ∀ c ∈ rest.head?, c.isDigit = false) :
    (whole ++ rest).takeWhile Char.isDigit = whole ∧
      (whole ++ rest).dropWhile Char.isDigit = rest := by
  have htake : rest.takeWhile Char.isDigit = [] := by
    cases rest with
    | nil => rfl
    | cons c rest => exact List.takeWhile_cons_of_neg (by simp [hrest c rfl])
  have hdrop : rest.dropWhile Char.isDigit = rest := by
    cases rest with
    | nil => rfl
    | cons c rest => exact List.dropWhile_cons_of_neg (by simp [hrest c rfl])
  rw [List.takeWhile_append_of_pos hwhole, List.dropWhile_append_of_pos hwhole, htake, hdrop,
    List.append_nil]
  exact ⟨rfl, rfl⟩

/-- The pattern matches the plain texts. -/
theorem matchesPattern_iff {text : Text} :
    matchesPattern text = true ↔ ∃ whole fraction, PlainText text whole fraction := by
  constructor
  · intro h
    have hsplit := List.takeWhile_append_dropWhile (p := Char.isDigit) (l := text)
    have hdigits : ∀ c ∈ text.takeWhile Char.isDigit, c.isDigit = true :=
      fun c hc => List.mem_takeWhile_imp hc
    rw [matchesPattern, Bool.and_eq_true] at h
    obtain ⟨hne, hrest⟩ := h
    have hne : text.takeWhile Char.isDigit ≠ [] := by simpa using hne
    cases htail : text.dropWhile Char.isDigit with
    | nil =>
        rw [htail, List.append_nil] at hsplit
        rw [hsplit] at hne hdigits
        exact ⟨text, [], .whole hne hdigits⟩
    | cons c fraction =>
        rw [htail] at hsplit hrest
        simp only [Bool.and_eq_true, Bool.or_eq_true, beq_iff_eq, List.all_eq_true] at hrest
        obtain ⟨⟨rfl, hlength⟩, hfraction⟩ := hrest
        rw [← hsplit]
        exact ⟨_, fraction, .point hne hdigits hlength hfraction⟩
  · rintro ⟨whole, fraction, h⟩
    cases h with
    | whole hne hwhole =>
        obtain ⟨htake, hdrop⟩ := span_digits [] hwhole (by simp)
        rw [List.append_nil] at htake hdrop
        simp [matchesPattern, htake, hdrop, hne]
    | point hne hwhole hlength hfraction =>
        obtain ⟨htake, hdrop⟩ := span_digits ('.' :: fraction) hwhole (by simp)
        simp [matchesPattern, htake, hdrop, hne, hlength, List.all_eq_true.mpr hfraction]

/-- A plain text is read as the number that it denotes. -/
theorem decimalOf_value {text whole fraction : Text} (h : PlainText text whole fraction) :
    (decimalOf text).value? = some (plainValue whole fraction) := by
  have hvalue : ∀ fraction : Text,
      (1 : ℚ) * ((Nat.ofDigitChars 10 (whole ++ fraction) 0 : Nat) * 10 ^ (-(fraction.length : Int)))
        = plainValue whole fraction := by
    intro fraction
    have hpos : (10 : ℚ) ^ fraction.length ≠ 0 := by positivity
    rw [Nat.ofDigitChars_append, Nat.ofDigitChars_eq_ofDigitChars_zero, plainValue, zpow_neg,
      zpow_natCast]
    push_cast
    field_simp
  cases h with
  | whole hne hwhole =>
      obtain ⟨htake, hdrop⟩ := span_digits [] hwhole (by simp)
      rw [List.append_nil] at htake hdrop
      simp only [decimalOf, htake, hdrop, Decimal.value?]
      exact congrArg some (hvalue [])
  | point hne hwhole hlength hfraction =>
      obtain ⟨htake, hdrop⟩ := span_digits ('.' :: fraction) hwhole (by simp)
      simp only [decimalOf, htake, hdrop, Decimal.value?]
      exact congrArg some (hvalue fraction)

-- ============================================================================
-- The range
-- ============================================================================

/-- The exact value is a price. -/
def InRange (d : Decimal) : Prop := ∃ p, d.value? = some p ∧ 1 / 100 ≤ p ∧ p ≤ 9999999999 / 100

theorem minPrice_value : minPrice.value? = some (1 / 100) := by
  norm_num [minPrice, Decimal.value?]

theorem maxPrice_value : maxPrice.value? = some (9999999999 / 100) := by
  norm_num [maxPrice, Decimal.value?]

/-- The check of the range passes for the numbers in it, in every context. -/
theorem checkRange_cases (context : DecimalContext) (price : Decimal) :
    (InRange price ∧ checkRange context price = .ok ()) ∨
      (¬ InRange price ∧ checkRange context price = .error priceRange) := by
  cases price with
  | infinity negative =>
      refine Or.inr ⟨?_, rfl⟩
      rintro ⟨p, hp, -⟩
      cases hp
  | nan =>
      refine Or.inr ⟨?_, rfl⟩
      rintro ⟨p, hp, -⟩
      cases hp
  | finite negative coefficient exponent =>
      obtain ⟨p, hp⟩ : ∃ p, (Decimal.finite negative coefficient exponent).value? = some p :=
        ⟨_, rfl⟩
      have hmin : lessEq context minPrice (.finite negative coefficient exponent) =
          .ok (decide (1 / 100 ≤ p)) := by
        simp only [lessEq, minPrice]
        rw [hp, ← minPrice, minPrice_value]
        rfl
      have hmax : lessEq context (.finite negative coefficient exponent) maxPrice =
          .ok (decide (p ≤ 9999999999 / 100)) := by
        simp only [lessEq, maxPrice]
        rw [hp, ← maxPrice, maxPrice_value]
        rfl
      have hiff : InRange (.finite negative coefficient exponent) ↔
          1 / 100 ≤ p ∧ p ≤ 9999999999 / 100 := by
        constructor
        · rintro ⟨q, hq, hrange⟩
          obtain rfl := Option.some.inj (hp.symm.trans hq)
          exact hrange
        · exact fun hrange => ⟨p, hp, hrange⟩
      rw [hiff]
      by_cases habove : 1 / 100 ≤ p
      · rw [decide_eq_true habove] at hmin
        by_cases hwithin : p ≤ 9999999999 / 100
        · rw [decide_eq_true hwithin] at hmax
          refine Or.inl ⟨⟨habove, hwithin⟩, ?_⟩
          simp only [checkRange, isFinite, hmin, hmax, raised]
          rfl
        · rw [decide_eq_false hwithin] at hmax
          refine Or.inr ⟨fun h => hwithin h.2, ?_⟩
          simp only [checkRange, isFinite, hmin, hmax, raised]
          rfl
      · rw [decide_eq_false habove] at hmin
        refine Or.inr ⟨fun h => habove h.1, ?_⟩
        simp only [checkRange, isFinite, hmin, raised]
        rfl

theorem checkRange_context (context context' : DecimalContext) (price : Decimal) :
    checkRange context price = checkRange context' price := by
  rcases checkRange_cases context price with ⟨hin, h⟩ | ⟨hout, h⟩
  · rcases checkRange_cases context' price with ⟨-, h'⟩ | ⟨hout, -⟩
    · rw [h, h']
    · exact absurd hin hout
  · rcases checkRange_cases context' price with ⟨hin, -⟩ | ⟨-, h'⟩
    · exact absurd hin hout
    · rw [h, h']

-- ============================================================================
-- Cents
-- ============================================================================

/-- A price is positive. -/
theorem finite_of_inRange {price : Decimal} (h : InRange price) :
    ∃ coefficient exponent, price = .finite false coefficient exponent ∧
      (coefficient : ℚ) * 10 ^ exponent ≤ (9999999999 : Nat) * 10 ^ (-2 : Int) := by
  obtain ⟨p, hp, hmin, hmax⟩ := h
  cases price with
  | infinity negative => cases hp
  | nan => cases hp
  | finite negative coefficient exponent =>
      have hpos : (0 : ℚ) ≤ coefficient * 10 ^ exponent := by positivity
      obtain rfl := Option.some.inj hp
      cases negative with
      | true =>
          simp only [if_true] at hmin
          linarith
      | false =>
          refine ⟨coefficient, exponent, rfl, ?_⟩
          norm_num at hmax ⊢
          exact hmax

/-- `quantize` raises nothing for a price. -/
theorem quantize_of_inRange {price : Decimal} (h : InRange price) :
    ∃ m, quantize (contextOf 10) price minPrice = .ok (.finite false m (-2)) ∧
      ∀ n : Nat, price.value? = some ((n : ℚ) / 100) → m = n := by
  obtain ⟨coefficient, exponent, rfl, hle⟩ := finite_of_inRange h
  have hbound : DecimalContext.rescale .halfEven false coefficient exponent (-2) ≤ 9999999999 :=
    DecimalContext.rescale_le hle
  have hdigits : DecimalContext.digitCount
      (DecimalContext.rescale .halfEven false coefficient exponent (-2)) ≤ 10 :=
    (Nat.length_toDigits_le_iff (by decide) (by decide)).mpr (by omega)
  have hpos : 0 < DecimalContext.digitCount
      (DecimalContext.rescale .halfEven false coefficient exponent (-2)) :=
    Nat.length_toDigits_pos
  have hfits : (contextOf 10).Fits
      (DecimalContext.rescale (contextOf 10).rounding false coefficient exponent (-2)) (-2) := by
    refine ⟨by decide, by decide, ?_, ?_, hdigits⟩
    · simp only [contextOf, DecimalContext.adjusted]
      omega
    · simp only [contextOf, DecimalContext.adjusted]
      omega
  refine ⟨DecimalContext.rescale .halfEven false coefficient exponent (-2), ?_, ?_⟩
  · have hok := DecimalContext.quantize_eq_ok hfits rfl rfl
    simp only [quantize, minPrice, hok]
    rfl
  · intro n hn
    have hvalue := Option.some.inj hn
    refine DecimalContext.rescale_eq ?_
    norm_num at hvalue ⊢
    rw [hvalue]
    ring

theorem cents_value (m : Nat) : (Decimal.finite false m (-2)).value? = some ((m : ℚ) / 100) := by
  simp only [Decimal.value?]
  norm_num
  exact mul_one_div _ _

/-- What `validate_price` makes of a decimal: the cents that it is, or an error. -/
theorem toCents_cases (context : DecimalContext) (price : Decimal) :
    (∃ m : Nat, price.value? = some ((m : ℚ) / 100) ∧ 1 ≤ m ∧ m ≤ 9999999999 ∧
        toCents context price = .ok (.finite false m (-2))) ∨
      (¬ InRange price ∧ toCents context price = .error priceRange) ∨
      (InRange price ∧ (∀ m : Nat, price.value? ≠ some ((m : ℚ) / 100)) ∧
        toCents context price = .error pricePrecision) := by
  rcases checkRange_cases context price with ⟨hin, hrange⟩ | ⟨hout, hrange⟩
  · obtain ⟨m, hquantize, hexact⟩ := quantize_of_inRange hin
    have htail : toCents context price =
        if notEqual price (.finite false m (-2)) then .error pricePrecision
        else .ok (.finite false m (-2)) := by
      simp only [toCents, hrange, localcontext, hquantize, raised]
      rfl
    obtain ⟨p, hp, hmin, hmax⟩ := hin
    have hnotEqual : notEqual price (.finite false m (-2)) = decide (p ≠ m / 100) := by
      obtain ⟨coefficient, exponent, rfl, -⟩ := finite_of_inRange ⟨p, hp, hmin, hmax⟩
      simp only [notEqual]
      rw [hp, cents_value]
      rfl
    by_cases hsame : p = m / 100
    · refine Or.inl ⟨m, hsame ▸ hp, ?_, ?_, ?_⟩
      · have hone : (1 : ℚ) ≤ m := by linarith
        exact_mod_cast hone
      · have hbound : (m : ℚ) ≤ 9999999999 := by linarith
        exact_mod_cast hbound
      · rw [htail, hnotEqual]
        simp [hsame]
    · refine Or.inr (Or.inr ⟨⟨p, hp, hmin, hmax⟩, ?_, ?_⟩)
      · intro n hn
        obtain rfl := hexact n hn
        exact hsame (Option.some.inj (hp.symm.trans hn))
      · rw [htail, hnotEqual]
        simp [hsame]
  · refine Or.inr (Or.inl ⟨hout, ?_⟩)
    simp only [toCents, hrange]
    rfl

-- ============================================================================
-- Inputs
-- ============================================================================

/-- The exact value of an input that is written as it has to be: a plain text, or a number of
    which there is a text. -/
def ExactValue : PriceInput → ℚ → Prop
  | .str text, p => ∃ whole fraction, PlainText text whole fraction ∧ p = plainValue whole fraction
  | .number n, p => n.toDecimal.isSome = true ∧ n.value? = some p
  | .bool _, _ => False
  | .other _, _ => False

/-- The conversion keeps the exact value. -/
theorem priceOf_cases (input : PriceInput) :
    (∃ price, priceOf input = .ok price ∧ ∀ p, ExactValue input p ↔ price.value? = some p) ∨
      ((∀ p, ¬ ExactValue input p) ∧ ∃ e, priceOf input = .error e ∧ ∀ s, e ≠ .signal s) := by
  cases input with
  | bool b => exact Or.inr ⟨fun _ h => h, priceType, rfl, fun _ => nofun⟩
  | other id => exact Or.inr ⟨fun _ h => h, priceType, rfl, fun _ => nofun⟩
  | number n =>
      cases hn : n.toDecimal with
      | none =>
          refine Or.inr ⟨?_, .tooManyDigits, by simp only [priceOf, hn], fun _ => nofun⟩
          rintro p ⟨hsome, -⟩
          rw [hn] at hsome
          cases hsome
      | some price =>
          refine Or.inl ⟨price, by simp only [priceOf, hn], fun p => ?_⟩
          rw [ExactValue, hn, toDecimal_value hn]
          simp
  | str text =>
      by_cases hmatch : matchesPattern text = true
      · refine Or.inl ⟨decimalOf text, if_pos hmatch, fun p => ?_⟩
        constructor
        · rintro ⟨whole, fraction, hplain, rfl⟩
          exact decimalOf_value hplain
        · intro hp
          obtain ⟨whole, fraction, hplain⟩ := matchesPattern_iff.mp hmatch
          exact ⟨whole, fraction, hplain,
            Option.some.inj (hp.symm.trans (decimalOf_value hplain))⟩
      · refine Or.inr ⟨?_, priceFormat, if_neg hmatch, fun _ => nofun⟩
        rintro p ⟨whole, fraction, hplain, -⟩
        exact hmatch (matchesPattern_iff.mpr ⟨whole, fraction, hplain⟩)

/-- A number of cents in the range. -/
def IsPrice (p : ℚ) : Prop := 1 / 100 ≤ p ∧ p ≤ 9999999999 / 100 ∧ ∃ m : Int, 100 * p = m

theorem exists_cents {p : ℚ} (h : IsPrice p) :
    ∃ m : Nat, p = (m : ℚ) / 100 ∧ 1 ≤ m ∧ m ≤ 9999999999 := by
  obtain ⟨hmin, hmax, m, hm⟩ := h
  have hone : (1 : ℚ) ≤ m := by linarith
  have hbound : (m : ℚ) ≤ 9999999999 := by linarith
  have hone : 1 ≤ m := by exact_mod_cast hone
  have hbound : m ≤ 9999999999 := by exact_mod_cast hbound
  refine ⟨m.toNat, ?_, by omega, by omega⟩
  have hcast : ((m.toNat : Nat) : ℚ) = m := by
    have : ((m.toNat : Nat) : Int) = m := Int.toNat_of_nonneg (by omega)
    exact_mod_cast this
  rw [hcast]
  linarith

theorem isPrice_cents {m : Nat} (hone : 1 ≤ m) (hbound : m ≤ 9999999999) : IsPrice (m / 100) := by
  have hone : (1 : ℚ) ≤ m := by exact_mod_cast hone
  have hbound : (m : ℚ) ≤ 9999999999 := by exact_mod_cast hbound
  refine ⟨by linarith, by linarith, m, ?_⟩
  push_cast
  ring

-- ============================================================================
-- Exactness
-- ============================================================================

theorem validatePrice_of_price {context : DecimalContext} {input : PriceInput} {price : Decimal}
    (h : priceOf input = .ok price) : validatePrice context input = toCents context price := by
  rw [validatePrice, h]
  rfl

theorem validatePrice_of_error {context : DecimalContext} {input : PriceInput} {e : PriceError}
    (h : priceOf input = .error e) : validatePrice context input = .error e := by
  rw [validatePrice, h]
  rfl

/-- What is accepted is the number of cents that it is. -/
theorem validatePrice_eq_ok_iff {context : DecimalContext} {input : PriceInput} {cents : Decimal} :
    validatePrice context input = .ok cents ↔
      ∃ m : Nat, ExactValue input (m / 100) ∧ 1 ≤ m ∧ m ≤ 9999999999 ∧
        cents = .finite false m (-2) := by
  rcases priceOf_cases input with ⟨price, hprice, hvalue⟩ | ⟨hnone, e, he, -⟩
  · rw [validatePrice_of_price hprice]
    rcases toCents_cases context price with ⟨m, hm, hone, hbound, hok⟩ | ⟨hout, herror⟩ |
        ⟨-, hnocents, herror⟩
    · rw [hok]
      constructor
      · intro h
        exact ⟨m, (hvalue _).mpr hm, hone, hbound, (Except.ok.inj h).symm⟩
      · rintro ⟨n, hn, -, -, rfl⟩
        have hsame : (m : ℚ) / 100 = n / 100 :=
          Option.some.inj (hm.symm.trans ((hvalue _).mp hn))
        have hmn : (m : ℚ) = n := by linarith
        obtain rfl : m = n := by exact_mod_cast hmn
        rfl
    · rw [herror]
      constructor
      · intro h
        cases h
      · rintro ⟨m, hm, hone, hbound, -⟩
        obtain ⟨hmin, hmax, -⟩ := isPrice_cents hone hbound
        exact absurd ⟨_, (hvalue _).mp hm, hmin, hmax⟩ hout
    · rw [herror]
      constructor
      · intro h
        cases h
      · rintro ⟨m, hm, -⟩
        exact absurd ((hvalue _).mp hm) (hnocents m)
  · rw [validatePrice_of_error he]
    constructor
    · intro h
      cases h
    · rintro ⟨m, hm, -⟩
      exact absurd hm (hnone _)

/-- No signal is raised. -/
theorem validatePrice_ne_signal (context : DecimalContext) (input : PriceInput)
    (s : DecimalSignal) : validatePrice context input ≠ .error (.signal s) := by
  rcases priceOf_cases input with ⟨price, hprice, -⟩ | ⟨-, e, he, hsignal⟩
  · rw [validatePrice_of_price hprice]
    rcases toCents_cases context price with ⟨m, -, -, -, h⟩ | ⟨-, h⟩ | ⟨-, -, h⟩ <;>
    · rw [h]
      exact nofun
  · rw [validatePrice_of_error he]
    exact fun h => hsignal s (Except.error.inj h)

theorem validatePrice_context (context context' : DecimalContext) (input : PriceInput) :
    validatePrice context' input = validatePrice context input := by
  have htoCents : ∀ price, toCents context' price = toCents context price := by
    intro price
    rw [toCents, toCents, checkRange_context context']
  rcases priceOf_cases input with ⟨price, hprice, -⟩ | ⟨-, e, he, -⟩
  · rw [validatePrice_of_price hprice, validatePrice_of_price hprice, htoCents]
  · rw [validatePrice_of_error he, validatePrice_of_error he]

/-- `validate_price` accepts exactly the inputs whose exact value is a number of cents in the
    range, and returns that value; `quantize` raises nothing, whatever the context of the caller
    is, and what was accepted is accepted again as it is. -/
theorem price_validated_exactly (context : DecimalContext) (input : PriceInput) :
    ((∃ cents, validatePrice context input = .ok cents) ↔ ∃ p, ExactValue input p ∧ IsPrice p) ∧
      (∀ cents, validatePrice context input = .ok cents →
        ∃ (p : ℚ) (m : Nat), ExactValue input p ∧ cents = .finite false m (-2) ∧
          cents.value? = some p ∧
          ∀ context', validatePrice context' (.number (.decimal cents)) = .ok cents) ∧
      (∀ price, checkRange context price = .ok () →
        ∃ cents, quantize (contextOf 10) price minPrice = .ok cents) ∧
      (∀ s, validatePrice context input ≠ .error (.signal s)) ∧
      ∀ context', validatePrice context' input = validatePrice context input := by
  refine ⟨⟨?_, ?_⟩, ?_, ?_, validatePrice_ne_signal context input,
    fun context' => validatePrice_context context context' input⟩
  · rintro ⟨cents, hcents⟩
    obtain ⟨m, hm, hone, hbound, -⟩ := validatePrice_eq_ok_iff.mp hcents
    exact ⟨_, hm, isPrice_cents hone hbound⟩
  · rintro ⟨p, hp, hprice⟩
    obtain ⟨m, rfl, hone, hbound⟩ := exists_cents hprice
    exact ⟨_, validatePrice_eq_ok_iff.mpr ⟨m, hp, hone, hbound, rfl⟩⟩
  · intro cents hcents
    obtain ⟨m, hm, hone, hbound, rfl⟩ := validatePrice_eq_ok_iff.mp hcents
    refine ⟨_, m, hm, rfl, cents_value m, fun context' => ?_⟩
    exact validatePrice_eq_ok_iff.mpr ⟨m, ⟨rfl, cents_value m⟩, hone, hbound, rfl⟩
  · intro price hprice
    rcases checkRange_cases context price with ⟨hin, -⟩ | ⟨-, herror⟩
    · obtain ⟨m, hm, -⟩ := quantize_of_inRange hin
      exact ⟨_, hm⟩
    · cases hprice.symm.trans herror

end QuickApi.Price
