/-
  QuickApi.Fingerprint.NumberText

  The number branch of the encoding is canonical: `encodeDecimal` writes the
  unique significand and exponent of the value (`encodeNumber_parts`), and the
  spelling gives them back (`numberText_injective`).
-/

import QuickApi.Fingerprint.Encode
import Mathlib.Tactic.Linarith

namespace QuickApi.Fingerprint

open QuickApi.Lib

/-- The spelling of a sign, a significand and an exponent. -/
def numberText (negative : Bool) (significand : Nat) (exponent : Int) : Text :=
  (if negative then ['-'] else []) ++ Nat.toDigits 10 significand ++
    (if exponent = 0 then [] else 'e' :: intText exponent)

/-- The characters of a number. -/
def NumberChar (c : Char) : Prop := c.isDigit = true ∨ c = '-' ∨ c = 'e'

/-- Zero without a sign, or a significand that is not a multiple of ten. -/
def CanonicalParts (negative : Bool) (significand : Nat) (exponent : Int) : Prop :=
  (negative = false ∧ significand = 0 ∧ exponent = 0) ∨ ¬ 10 ∣ significand

/-- The exact value of a sign, a significand and an exponent. -/
def partsValue (negative : Bool) (significand : Nat) (exponent : Int) : ℚ :=
  (if negative then -1 else 1) * (significand * 10 ^ exponent)

theorem digit_of_mem_toDigits {c : Char} {n : Nat} (h : c ∈ Nat.toDigits 10 n) :
    c.isDigit = true := Nat.isDigit_of_mem_toDigits (by decide) (by decide) h

theorem digit_ne {c d : Char} (hc : c.isDigit = true) (hd : d.isDigit = false) : c ≠ d := by
  rintro rfl
  rw [hc] at hd
  cases hd

theorem intText_injective {m n : Int} (h : intText m = intText n) : m = n := by
  have hhead : ∀ k : Nat, ∀ rest, Nat.toDigits 10 k ≠ '-' :: rest := by
    intro k rest hk
    have hmem : '-' ∈ Nat.toDigits 10 k := hk ▸ List.mem_cons_self
    exact absurd (digit_of_mem_toDigits hmem) (by decide)
  unfold intText at h
  split at h <;> split at h
  · have := toDigits_injective (List.cons.inj h).2
    omega
  · exact absurd h.symm (hhead _ _)
  · exact absurd h (hhead _ _)
  · have := toDigits_injective h
    omega

theorem numberChar_of_mem_intText {c : Char} {n : Int} (h : c ∈ intText n) : NumberChar c := by
  unfold intText at h
  split at h
  · rcases List.mem_cons.mp h with rfl | h
    · exact Or.inr (Or.inl rfl)
    · exact Or.inl (digit_of_mem_toDigits h)
  · exact Or.inl (digit_of_mem_toDigits h)

theorem numberChar_of_mem_numberText {negative : Bool} {m : Nat} {e : Int} {c : Char}
    (h : c ∈ numberText negative m e) : NumberChar c := by
  unfold numberText at h
  rcases List.mem_append.mp h with h | h
  · rcases List.mem_append.mp h with h | h
    · cases negative
      · cases h
      · exact Or.inr (Or.inl (by simpa using h))
    · exact Or.inl (digit_of_mem_toDigits h)
  · split at h
    · cases h
    · rcases List.mem_cons.mp h with rfl | h
      · exact Or.inr (Or.inr rfl)
      · exact numberChar_of_mem_intText h

/-- What follows the digits is empty or starts with the exponent mark. -/
theorem exponent_startsIn (e : Int) :
    StartsIn (fun c => ¬ c.isDigit = true) (if e = 0 then [] else 'e' :: intText e) := by
  split
  · exact startsIn_nil _
  · exact startsIn_cons (by decide)

/-- The first character is a digit unless the number is negative. -/
theorem toDigits_head (m : Nat) :
    ∃ c rest, Nat.toDigits 10 m = c :: rest ∧ c.isDigit = true := by
  obtain ⟨c, rest, h⟩ := List.exists_cons_of_ne_nil (Nat.toDigits_ne_nil (n := m) (b := 10))
  exact ⟨c, rest, h, digit_of_mem_toDigits (h ▸ List.mem_cons_self)⟩

theorem numberText_head (negative : Bool) (m : Nat) (e : Int) :
    ∃ c rest, numberText negative m e = c :: rest ∧ (c.isDigit = true ∨ c = '-') := by
  cases negative with
  | true => exact ⟨'-', _, rfl, Or.inr rfl⟩
  | false =>
      obtain ⟨c, rest, h, hc⟩ := toDigits_head m
      exact ⟨c, _, by simp [numberText, h]; rfl, Or.inl hc⟩

theorem numberText_injective {a b : Bool} {m n : Nat} {e f : Int}
    (h : numberText a m e = numberText b n f) : a = b ∧ m = n ∧ e = f := by
  -- The sign is the first character, which no digit is.
  have hsign : a = b ∧ Nat.toDigits 10 m ++ (if e = 0 then [] else 'e' :: intText e)
      = Nat.toDigits 10 n ++ (if f = 0 then [] else 'e' :: intText f) := by
    obtain ⟨c, s, hm, hc⟩ := toDigits_head m
    obtain ⟨d, t, hn, hd⟩ := toDigits_head n
    cases a <;> cases b
    · exact ⟨rfl, by simpa [numberText] using h⟩
    · exact absurd (by simpa [numberText, hm] using (congrArg List.head? h)) (digit_ne hc (by decide))
    · exact absurd (by simpa [numberText, hn] using (congrArg List.head? h.symm))
        (digit_ne hd (by decide))
    · exact ⟨rfl, by simpa [numberText] using h⟩
  obtain ⟨hdigits, hexp⟩ := append_inj_of_alphabet (p := fun c => c.isDigit = true)
    (fun _ => digit_of_mem_toDigits) (fun _ => digit_of_mem_toDigits)
    (exponent_startsIn e) (exponent_startsIn f) hsign.2
  refine ⟨hsign.1, toDigits_injective hdigits, ?_⟩
  split at hexp <;> split at hexp
  · next h0 h0' => exact h0.trans h0'.symm
  · cases hexp
  · cases hexp
  · exact intText_injective (List.cons.inj hexp).2

/-- Equal values have equal canonical parts. -/
theorem canonicalParts_unique {a b : Bool} {m n : Nat} {e f : Int}
    (h : CanonicalParts a m e) (h' : CanonicalParts b n f)
    (hvalue : partsValue a m e = partsValue b n f) : a = b ∧ m = n ∧ e = f := by
  have hpos : ∀ {k : Nat} {g : Int}, ¬ 10 ∣ k → (0 : ℚ) < k * 10 ^ g := by
    intro k g hk
    have hk0 : 0 < k := Nat.pos_of_ne_zero fun h => hk (h ▸ dvd_zero 10)
    exact mul_pos (by exact_mod_cast hk0) (zpow_pos (by norm_num) g)
  have hzero : ∀ {c : Bool} {k : Nat} {g : Int}, ¬ 10 ∣ k → partsValue c k g ≠ 0 := by
    intro c k g hk
    have := (hpos (g := g) hk).ne'
    cases c <;> simpa [partsValue] using this
  rcases h with ⟨rfl, rfl, rfl⟩ | hm <;> rcases h' with ⟨rfl, rfl, rfl⟩ | hn
  · exact ⟨rfl, rfl, rfl⟩
  · exact absurd (hvalue.symm.trans (by simp [partsValue])) (hzero hn)
  · exact absurd (hvalue.trans (by simp [partsValue])) (hzero hm)
  · unfold partsValue at hvalue
    have h1 := hpos (g := e) hm
    have h2 := hpos (g := f) hn
    cases a <;> cases b <;>
      simp only [Bool.false_eq_true, if_false, if_true, one_mul, neg_mul, neg_inj] at hvalue
    · exact ⟨rfl, significand_unique hm hn hvalue⟩
    · linarith
    · linarith
    · exact ⟨rfl, significand_unique hm hn hvalue⟩

/-- A finite decimal is encoded as the spelling of its canonical parts. -/
theorem encodeDecimal_parts {d : Decimal} {s : Text} (h : encodeDecimal d = some s) :
    ∃ a m e, CanonicalParts a m e ∧ s = numberText a m e ∧ d.value? = some (partsValue a m e) := by
  cases d with
  | infinity negative => cases h
  | nan => cases h
  | finite negative coefficient exponent =>
      simp only [encodeDecimal] at h
      split at h
      · next h0 =>
        obtain rfl := Option.some.inj h
        refine ⟨false, 0, 0, Or.inl ⟨rfl, rfl, rfl⟩, by decide, ?_⟩
        simp [Decimal.value?, partsValue, h0]
      · next h0 =>
        obtain ⟨m, k, rfl, hm⟩ := exists_significand h0
        have hm0 : m ≠ 0 := fun h => hm (h ▸ dvd_zero 10)
        have hstrip := rstripZeros_toDigits_mul hm k
        have hlen : (Nat.toDigits 10 (10 ^ k * m)).length - (Nat.toDigits 10 m).length = k := by
          rw [toDigits_ten_pow_mul hm0, List.length_append, List.length_replicate]
          omega
        simp only [hstrip, hlen] at h
        refine ⟨negative, m, exponent + k, Or.inr hm, (Option.some.inj h).symm, ?_⟩
        have hten : (10 : ℚ) ≠ 0 := by norm_num
        simp only [Decimal.value?, partsValue, zpow_add₀ hten, zpow_natCast, Nat.cast_mul,
          Nat.cast_pow, Nat.cast_ofNat]
        congr 2
        ring

theorem toDecimal_value {n : Number} {d : Decimal} (h : n.toDecimal = some d) :
    n.value? = d.value? := by
  cases n with
  | float repr =>
      obtain rfl := Option.some.inj h
      rfl
  | decimal d =>
      obtain rfl := Option.some.inj h
      rfl
  | int n =>
      simp only [Number.toDecimal] at h
      split at h
      · obtain rfl := Option.some.inj h
        simp only [Number.value?, Decimal.value?, zpow_zero, mul_one, decide_eq_true_eq]
        congr 1
        by_cases hn : n < 0
        · rw [if_pos hn, ← Int.cast_natCast, Int.ofNat_natAbs_of_nonpos (le_of_lt hn)]
          simp
        · rw [if_neg hn, ← Int.cast_natCast, Int.natAbs_of_nonneg (not_lt.mp hn)]
          simp
      · cases h

theorem encodeNumber_parts {n : Number} {s : Text} (h : encodeNumber n = some s) :
    ∃ a m e, CanonicalParts a m e ∧ s = numberText a m e ∧
      n.value? = some (partsValue a m e) := by
  obtain ⟨d, hd, hs⟩ := Option.bind_eq_some_iff.mp h
  rw [toDecimal_value hd]
  exact encodeDecimal_parts hs

/-- Two encodable numbers have one spelling exactly when they have one value. -/
theorem encodeNumber_same {n k : Number} {s t : Text} (hs : encodeNumber n = some s)
    (ht : encodeNumber k = some t) :
    Value.same (.number n) (.number k) = true ↔ s = t := by
  obtain ⟨a, m, e, hcanon, rfl, hvalue⟩ := encodeNumber_parts hs
  obtain ⟨b, m', f, hcanon', rfl, hvalue'⟩ := encodeNumber_parts ht
  simp only [Value.same, hvalue, hvalue', beq_iff_eq]
  constructor
  · intro h
    obtain ⟨rfl, rfl, rfl⟩ := canonicalParts_unique hcanon hcanon' h
    rfl
  · intro h
    obtain ⟨rfl, rfl, rfl⟩ := numberText_injective h
    rfl

end QuickApi.Fingerprint
