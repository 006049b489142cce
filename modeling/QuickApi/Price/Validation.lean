/-
  QuickApi.Price.Validation

  The exact price contract (`validate_price` in
  `app/common/models/price_model.py`) and the decimal operations it uses.
-/

import QuickApi.Fingerprint.NumberText
import QuickApi.Lib.DecimalContext

namespace QuickApi.Price

open QuickApi.Fingerprint QuickApi.Lib

-- ============================================================================
-- Decimal operations
-- ============================================================================

/-- `d.is_finite()` -/
def isFinite : Decimal → Bool
  | .finite _ _ _ => true
  | _ => false

/-- `d <= e` -/
def lessEq (context : DecimalContext) (d e : Decimal) : Except DecimalSignal Bool :=
  match d, e with
  | .nan, _ | _, .nan => do
      context.signal .invalidOperation
      pure false
  | .infinity negative, e => .ok (negative || e == .infinity false)
  | _, .infinity negative => .ok !negative
  | d, e => .ok (d.value?.getD 0 ≤ e.value?.getD 0)

/-- `d != e` -/
def notEqual (d e : Decimal) : Bool :=
  match d, e with
  | .finite _ _ _, .finite _ _ _ => d.value?.getD 0 ≠ e.value?.getD 0
  | .infinity negative, .infinity negative' => negative != negative'
  | _, _ => true

/-- `d.quantize(e)` -/
def quantize (context : DecimalContext) (d e : Decimal) : Except DecimalSignal Decimal :=
  match d, e with
  | .nan, _ | _, .nan => .ok .nan
  | .infinity negative, .infinity _ => .ok (.infinity negative)
  | .finite negative coefficient exponent, .finite _ _ target => do
      let result ← context.quantize negative coefficient exponent target
      pure (result.elim .nan fun result => .finite negative result target)
  | _, _ => do
      context.signal .invalidOperation
      pure .nan

/-- `Context(prec=prec)`: the rest is the default context. -/
def contextOf (prec : Nat) : DecimalContext where
  prec := prec
  rounding := .halfEven
  emin := -999999
  emax := 999999
  traps s := s == .invalidOperation

/-- `with localcontext(context)` -/
def localcontext {α : Type} (context : DecimalContext) (body : DecimalContext → α) : α :=
  body context

-- ============================================================================
-- validate_price
-- ============================================================================

/-- `MIN_PRICE` -/
def minPrice : Decimal := .finite false 1 (-2)

/-- `MAX_PRICE` -/
def maxPrice : Decimal := .finite false 9999999999 (-2)

/-- What is validated; a float is read through its text. -/
inductive PriceInput where
  | str (text : Text)
  | bool (b : Bool)
  | number (n : Number)
  /-- a value of any other type -/
  | other (id : Nat)

/-- Why a price is refused, or what is raised instead. -/
inductive PriceError where
  /-- `PydanticCustomError(code, message)` -/
  | custom (code message : String)
  /-- the `ValueError` of `str` over too long an int -/
  | tooManyDigits
  | signal (s : DecimalSignal)
deriving DecidableEq, Repr

def priceFormat : PriceError :=
  .custom "price_format"
    "Price must be an unsigned plain decimal string with at most two decimal places"

def priceType : PriceError :=
  .custom "price_type" "Price must be a number or unsigned plain decimal string"

def priceRange : PriceError :=
  .custom "price_range" "Price must be between 0.01 and 99999999.99"

def pricePrecision : PriceError :=
  .custom "price_precision" "Price must have at most two decimal places"

/-- `re.fullmatch(PRICE_PATTERN, text)` -/
def matchesPattern (text : Text) : Bool :=
  let whole := text.takeWhile Char.isDigit
  let rest := text.dropWhile Char.isDigit
  !whole.isEmpty &&
    match rest with
    | [] => true
    | c :: fraction =>
        c == '.' && (fraction.length == 1 || fraction.length == 2) && fraction.all Char.isDigit

/-- `Decimal(text)` of a text that matches. -/
def decimalOf (text : Text) : Decimal :=
  let whole := text.takeWhile Char.isDigit
  let fraction := (text.dropWhile Char.isDigit).drop 1
  .finite false (Nat.ofDigitChars 10 (whole ++ fraction) 0) (-fraction.length)

/-- `validate_price` up to the check of the range -/
def priceOf : PriceInput → Except PriceError Decimal
  | .str text => if matchesPattern text then .ok (decimalOf text) else .error priceFormat
  | .number n =>
      match n.toDecimal with
      | some price => .ok price
      | none => .error .tooManyDigits
  | .bool _ | .other _ => .error priceType

/-- A signal that is raised leaves `validate_price`. -/
def raised {α : Type} : Except DecimalSignal α → Except PriceError α
  | .ok a => .ok a
  | .error s => .error (.signal s)

/-- `not price.is_finite() or not MIN_PRICE <= price <= MAX_PRICE` -/
def checkRange (context : DecimalContext) (price : Decimal) : Except PriceError Unit :=
  if !isFinite price then .error priceRange
  else do
    let above ← raised (lessEq context minPrice price)
    let within ← if above then raised (lessEq context price maxPrice) else pure false
    if within then pure () else .error priceRange

/-- `validate_price` behind the conversion to a decimal -/
def toCents (context : DecimalContext) (price : Decimal) : Except PriceError Decimal := do
  checkRange context price
  let cents ← raised (localcontext (contextOf 10) fun context => quantize context price minPrice)
  if notEqual price cents then .error pricePrecision
  else pure cents

/-- `validate_price` in the context of the caller -/
def validatePrice (context : DecimalContext) (value : PriceInput) : Except PriceError Decimal := do
  let price ← priceOf value
  toCents context price

end QuickApi.Price
