/-
  QuickApi.Lib.IntText

  `int(text)` in base ten: white space around, a sign, decimal digits of any
  script with single underscores between them, at most 4300 digits.
-/

import QuickApi.Lib.PythonText
import QuickApi.Lib.Radix

namespace QuickApi.Lib

/-- White space that `int` skips: the separators U+001C to U+001F do not count. -/
def isIntSpace (c : Char) : Bool := isSpace c && !(28 ≤ c.toNat && c.toNat ≤ 31)

/-- Digits, with single underscores between them. -/
def readDecimals : List Char → Option (List Nat)
  | [] => none
  | c :: rest =>
      (digitOf c).bind fun d =>
        match rest with
        | [] => some [d]
        | '_' :: rest => (readDecimals rest).map (d :: ·)
        | rest => (readDecimals rest).map (d :: ·)

/-- `sys.int_info.default_max_str_digits` -/
def maxStrDigits : Nat := 4300

/-- `int(text)`; `none` is a `ValueError`. -/
def int (text : List Char) : Option Int :=
  let body := (text.dropWhile isIntSpace).rdropWhile isIntSpace
  let (sign, digits) : Int × List Char :=
    match body with
    | '-' :: rest => (-1, rest)
    | '+' :: rest => (1, rest)
    | rest => (1, rest)
  (readDecimals digits).bind fun digits =>
    if maxStrDigits < digits.length then none else some (sign * ofRadix 10 digits)

example : int " +1_0٣".toList = some 103 := by decide +kernel

end QuickApi.Lib
