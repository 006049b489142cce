/-
  QuickApi.Lib.Base64

  Base64 as `b64decode(text, validate=True)` reads it: nothing but the alphabet
  and padding at the end.
-/

import QuickApi.Lib.PythonText

namespace QuickApi.Lib

/-- Why a text is no Base64. -/
inductive Base64Error where
  | nonAscii
  | leadingPadding
  | excessData
  | foreignCharacter
  | discontinuousPadding
  | oneCharacter (characters : Nat)
  | incorrectPadding
deriving DecidableEq, Repr

/-- The message of the exception. -/
def Base64Error.message : Base64Error → String
  | .nonAscii => "string argument should contain only ASCII characters"
  | .leadingPadding => "Leading padding not allowed"
  | .excessData => "Excess data after padding"
  | .foreignCharacter => "Only base64 data is allowed"
  | .discontinuousPadding => "Discontinuous padding not allowed"
  | .oneCharacter characters =>
      "Invalid base64-encoded string: number of data characters (" ++ toString characters ++
        ") cannot be 1 more than a multiple of 4"
  | .incorrectPadding => "Incorrect padding"

/-- The six bits of a character. -/
def sextet? (c : Char) : Option Nat :=
  if 'A' ≤ c ∧ c ≤ 'Z' then some (c.toNat - 'A'.toNat)
  else if 'a' ≤ c ∧ c ≤ 'z' then some (c.toNat - 'a'.toNat + 26)
  else if '0' ≤ c ∧ c ≤ '9' then some (c.toNat - '0'.toNat + 52)
  else if c = '+' then some 62
  else if c = '/' then some 63
  else none

/-- The loop over the characters.  `quad` counts the characters of the current group of four, `left`
    holds the bits behind the last byte, `pads` counts the padding behind the last character, and
    `out` holds the bytes in reverse. -/
def decodeLoop (quad left pads : Nat) (padded : Bool) (out : Bytes) :
    List Char → Except Base64Error Bytes
  | [] =>
      if quad = 0 then .ok out.reverse
      else if quad = 1 then .error (.oneCharacter (out.length / 3 * 4 + 1))
      else .error .incorrectPadding
  | c :: rest =>
      if c = '=' then
        if 2 ≤ quad then
          if 4 ≤ quad + (pads + 1) then
            if rest = [] then .ok out.reverse else .error .excessData
          else decodeLoop quad left (pads + 1) true out rest
        else decodeLoop quad left pads true out rest
      else
        match sextet? c with
        | none => .error .foreignCharacter
        | some bits =>
            if padded then .error .discontinuousPadding
            else if quad = 0 then decodeLoop 1 bits 0 padded out rest
            else
              let byte := left * 2 ^ (2 * quad) + bits / 2 ^ (6 - 2 * quad)
              decodeLoop ((quad + 1) % 4) (bits % 2 ^ (6 - 2 * quad)) 0 padded
                (UInt8.ofNat byte :: out) rest

/-- `b64decode(text, validate=True)` -/
def b64decode (text : List Char) : Except Base64Error Bytes :=
  if text.any fun c => 128 ≤ c.toNat then .error .nonAscii
  else if text.head? = some '=' then .error .leadingPadding
  else decodeLoop 0 0 0 false [] text

example : b64decode "e30=".toList = .ok [123, 125] := by rfl

end QuickApi.Lib
