/-
  QuickApi.Fingerprint.Encode

  The frozen fingerprint encoding (`_encode` in
  `app/common/models/idempotency_model.py`).  `none` stands for a raised
  exception: a number that is not finite, or an int whose decimal text Python
  refuses to produce.
-/

import QuickApi.Fingerprint.Value
import QuickApi.Lib.Readable
import QuickApi.Lib.DecimalText
import Mathlib.Data.Char
import Mathlib.Data.List.Lex
import Mathlib.Data.List.Sort

namespace QuickApi.Fingerprint

open QuickApi.Lib

-- ============================================================================
-- Numbers
-- ============================================================================

/-- Python's default limit on the digits of an int turned into text. -/
def intMaxStrDigits : Nat := 4300

/-- `value if isinstance(value, Decimal) else Decimal(str(value))` -/
def Number.toDecimal : Number → Option Decimal
  | .int n =>
      if (Nat.toDigits 10 n.natAbs).length ≤ intMaxStrDigits then
        some (.finite (n < 0) n.natAbs 0)
      else none
  | .float repr => some repr
  | .decimal d => some d

/-- `str` of an int, as `f'e{exponent}'` uses it. -/
def intText (n : Int) : Text :=
  if n < 0 then '-' :: Nat.toDigits 10 n.natAbs else Nat.toDigits 10 n.natAbs

/-- The number branch of `_encode` behind the conversion to `Decimal`. -/
def encodeDecimal : Decimal → Option Text
  | .infinity _ => none
  | .nan => none
  | .finite negative coefficient exponent =>
      if coefficient = 0 then some ['0']
      else
        let digits := Nat.toDigits 10 coefficient
        let significant := rstripZeros digits
        let exponent := exponent + (digits.length - significant.length : Nat)
        some ((if negative then ['-'] else []) ++ significant ++
          (if exponent = 0 then [] else 'e' :: intText exponent))

/-- The number branch of `_encode`. -/
def encodeNumber (n : Number) : Option Text := n.toDecimal.bind encodeDecimal

-- ============================================================================
-- Strings
-- ============================================================================

/-- How `json.dumps(…, ensure_ascii=False)` spells one character of a string. -/
def escapeChar (c : Char) : Text :=
  if c = '"' then ['\\', '"']
  else if c = '\\' then ['\\', '\\']
  else if c = '\n' then ['\\', 'n']
  else if c = '\r' then ['\\', 'r']
  else if c = '\t' then ['\\', 't']
  else if c.toNat = 8 then ['\\', 'b']
  else if c.toNat = 12 then ['\\', 'f']
  else if c.toNat < 32 then
    ['\\', 'u', '0', '0', (c.toNat / 16).digitChar, (c.toNat % 16).digitChar]
  else [c]

/-- `json.dumps(s, ensure_ascii=False)` -/
def dumpsString (s : Text) : Text := '"' :: (s.flatMap escapeChar ++ ['"'])

-- ============================================================================
-- Values
-- ============================================================================

/-- `sorted(mapping)`: by code points of the key. -/
def sortByKey {α : Type} (entries : List (Text × α)) : List (Text × α) :=
  entries.insertionSort fun a b => a.1 ≤ b.1

/-- `json.dumps(key, ensure_ascii=False) + ':' + _encode(mapping[key])` -/
def encodeMember (member : Text × Text) : Text := dumpsString member.1 ++ ':' :: member.2

mutual
/-- `_encode` -/
def encode : Value → Option Text
  | .null => some ['n', 'u', 'l', 'l']
  | .bool true => some ['t', 'r', 'u', 'e']
  | .bool false => some ['f', 'a', 'l', 's', 'e']
  | .number n => encodeNumber n
  | .str s => some (dumpsString s)
  | .list items =>
      (encodeItems items).map fun texts => '[' :: (joinWith ',' texts ++ [']'])
  | .dict entries =>
      (encodeEntries entries).map fun members =>
        '{' :: (joinWith ',' ((sortByKey members).map encodeMember) ++ ['}'])

def encodeItems : List Value → Option (List Text)
  | [] => some []
  | v :: vs => (encode v).bind fun text => (encodeItems vs).map fun texts => text :: texts

def encodeEntries : List (Text × Value) → Option (List (Text × Text))
  | [] => some []
  | (k, v) :: es =>
      (encode v).bind fun text => (encodeEntries es).map fun members => (k, text) :: members
end

/-- The text of an encodable value. -/
def textOf (v : Value) : Text := (encode v).getD []

theorem encode_eq_textOf {v : Value} {s : Text} (h : encode v = some s) : textOf v = s := by
  simp [textOf, h]

/-- A list encodes exactly when its elements do, element by element. -/
theorem encodeItems_eq_some_iff {items : List Value} {texts : List Text} :
    encodeItems items = some texts ↔
      (∀ v ∈ items, encode v = some (textOf v)) ∧ texts = items.map textOf := by
  induction items generalizing texts with
  | nil => simp [encodeItems, eq_comm]
  | cons v vs ih =>
      cases hv : encode v with
      | none => simp [encodeItems, hv]
      | some s =>
          have hs := encode_eq_textOf hv
          subst hs
          simp only [encodeItems, hv, Option.bind_some, Option.map_eq_some_iff, ih,
            List.forall_mem_cons, List.map_cons, true_and]
          constructor
          · rintro ⟨rest, ⟨hall, rfl⟩, rfl⟩
            exact ⟨hall, rfl⟩
          · rintro ⟨hall, rfl⟩
            exact ⟨_, ⟨hall, rfl⟩, rfl⟩

/-- A dict encodes exactly when its values do, entry by entry. -/
theorem encodeEntries_eq_some_iff {entries : List (Text × Value)}
    {members : List (Text × Text)} :
    encodeEntries entries = some members ↔
      (∀ e ∈ entries, encode e.2 = some (textOf e.2)) ∧
        members = entries.map fun e => (e.1, textOf e.2) := by
  induction entries generalizing members with
  | nil => simp [encodeEntries, eq_comm]
  | cons e es ih =>
      obtain ⟨k, v⟩ := e
      cases hv : encode v with
      | none => simp [encodeEntries, hv]
      | some s =>
          have hs := encode_eq_textOf hv
          subst hs
          simp only [encodeEntries, hv, Option.bind_some, Option.map_eq_some_iff, ih,
            List.forall_mem_cons, List.map_cons, true_and]
          constructor
          · rintro ⟨rest, ⟨hall, rfl⟩, rfl⟩
            exact ⟨hall, rfl⟩
          · rintro ⟨hall, rfl⟩
            exact ⟨_, ⟨hall, rfl⟩, rfl⟩

/-- Sorting the encoded members is sorting the entries. -/
theorem sortByKey_map_textOf (entries : List (Text × Value)) :
    sortByKey (entries.map fun e => (e.1, textOf e.2))
      = (sortByKey entries).map fun e => (e.1, textOf e.2) := by
  refine (List.map_insertionSort _ _ _ entries ?_).symm
  intro a _ b _
  rfl

end QuickApi.Fingerprint
