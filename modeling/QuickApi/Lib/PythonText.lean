/-
  QuickApi.Lib.PythonText

  Texts as lists of characters and byte strings as lists of bytes, with the
  methods of Python's `str` and `bytes` under their Python names.
-/

import Mathlib.Data.List.DropRight

namespace QuickApi.Lib

-- ============================================================================
-- str
-- ============================================================================

/-- `c.isspace()` -/
def isSpace (c : Char) : Bool :=
  let n := c.toNat
  (9 ≤ n && n ≤ 13) || (28 ≤ n && n ≤ 32) || n == 0x85 || n == 0xA0 || n == 0x1680 ||
    (0x2000 ≤ n && n ≤ 0x200A) || n == 0x2028 || n == 0x2029 || n == 0x202F || n == 0x205F ||
    n == 0x3000

/-- `text.strip()` -/
def strip (text : List Char) : List Char := (text.dropWhile isSpace).rdropWhile isSpace

theorem mem_of_mem_strip {c : Char} {text : List Char} (h : c ∈ strip text) : c ∈ text :=
  (List.dropWhile_sublist _).subset ((List.rdropWhile_prefix isSpace _).subset h)

/-- `text.lower()` of an ASCII text -/
def lowerAscii (text : List Char) : List Char := text.map Char.toLower

/-- The zeros of the decimal digits of Unicode. -/
def decimalZeros : List Nat :=
  [0x30, 0x660, 0x6f0, 0x7c0, 0x966, 0x9e6, 0xa66, 0xae6, 0xb66, 0xbe6, 0xc66, 0xce6, 0xd66, 0xde6,
    0xe50, 0xed0, 0xf20, 0x1040, 0x1090, 0x17e0, 0x1810, 0x1946, 0x19d0, 0x1a80, 0x1a90, 0x1b50,
    0x1bb0, 0x1c40, 0x1c50, 0xa620, 0xa8d0, 0xa900, 0xa9d0, 0xa9f0, 0xaa50, 0xabf0, 0xff10,
    0x104a0, 0x10d30, 0x11066, 0x110f0, 0x11136, 0x111d0, 0x112f0, 0x11450, 0x114d0, 0x11650,
    0x116c0, 0x11730, 0x118e0, 0x11950, 0x11c50, 0x11d50, 0x11da0, 0x11f50, 0x16a60, 0x16ac0,
    0x16b50, 0x1d7ce, 0x1d7d8, 0x1d7e2, 0x1d7ec, 0x1d7f6, 0x1e140, 0x1e2f0, 0x1e4f0, 0x1e950,
    0x1fbf0]

/-- The value of a character that `\d` matches. -/
def digitOf (c : Char) : Option Nat :=
  (decimalZeros.find? fun start => start ≤ c.toNat && c.toNat < start + 10).map (c.toNat - ·)

-- ============================================================================
-- bytes
-- ============================================================================

abbrev Bytes := List UInt8

/-- Byte strings, and texts, are told apart in lists of them. -/
instance lawfulBEqBytes : LawfulBEq Bytes := inferInstance

instance lawfulBEqText : LawfulBEq (List Char) := inferInstance

/-- `data.lower()` -/
def lowerBytes (data : Bytes) : Bytes := data.map fun b => if 65 ≤ b ∧ b ≤ 90 then b + 32 else b

/-- `data.decode("ascii")` -/
def decodeAscii (data : Bytes) : Option (List Char) :=
  if data.all (· < 128) then some (data.map fun b => Char.ofNat b.toNat) else none

/-- `text.encode("ascii")` -/
def encodeAscii (text : List Char) : Bytes := text.map fun c => UInt8.ofNat c.toNat

/-- Bytes of ASCII are lowered as the text they denote. -/
theorem decodeAscii_lowerBytes {data : Bytes} {text : List Char}
    (h : decodeAscii data = some text) :
    decodeAscii (lowerBytes data) = some (lowerAscii text) := by
  simp only [decodeAscii, Option.ite_none_right_eq_some, Option.some.injEq] at h
  obtain ⟨hascii, rfl⟩ := h
  rw [List.all_eq_true] at hascii
  have hbyte : ∀ n : Fin 128, (if 65 ≤ UInt8.ofNat n.val ∧ UInt8.ofNat n.val ≤ 90
        then UInt8.ofNat n.val + 32 else UInt8.ofNat n.val) < 128 ∧
      Char.ofNat (if 65 ≤ UInt8.ofNat n.val ∧ UInt8.ofNat n.val ≤ 90
        then UInt8.ofNat n.val + 32 else UInt8.ofNat n.val).toNat =
      (Char.ofNat n.val).toLower := by decide +kernel
  have hall : ∀ b ∈ data, (if 65 ≤ b ∧ b ≤ 90 then b + 32 else b) < 128 ∧
      Char.ofNat (if 65 ≤ b ∧ b ≤ 90 then b + 32 else b).toNat =
        (Char.ofNat b.toNat).toLower := by
    intro b hb
    have hb' := hbyte ⟨b.toNat, of_decide_eq_true (hascii b hb)⟩
    simpa using hb'
  rw [decodeAscii, lowerBytes, if_pos (by simpa using fun b hb => (hall b hb).1), lowerAscii,
    List.map_map, List.map_map]
  exact congrArg some (List.map_congr_left fun b hb => (hall b hb).2)

end QuickApi.Lib
