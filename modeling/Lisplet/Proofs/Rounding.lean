import Lisplet.Number.Decimal
import Mathlib

/-!
Numbers, their bits and rounding. A finite number is determined by its sign and the pattern that its
parts spell.

Rounding depends on the value alone. The integer arithmetic that finds the number nearest to a
quotient or to a decimal computes a function of the rational it stands for, so two spellings of one
value give one number.
-/

namespace Lisplet

namespace Number

/-- What the parts of a finite number say about its bits. -/
structure Finite (x : Number) (negative : Bool) (m : Nat) (q : Int) : Prop where
  bits : x.toBits.toNat = (if negative then 2 ^ 63 else 0) + ((q + 1074).toNat * 2 ^ 52 + m)
  mantissa_lt : m < 2 ^ 53
  le_exponent : -1074 ≤ q
  exponent_lt : q < 972
  normal : 2 ^ 52 ≤ m ∨ q = -1074

theorem finite_of_parts {x : Number} {negative : Bool} {m : Nat} {q : Int}
    (h : x.parts = .finite negative m q) : Finite x negative m q := by
  have hbits : x.toBits.toNat < 2 ^ 64 := x.toBits.toNat_lt
  simp only [parts] at h
  split at h
  · split at h <;> cases h
  · split at h <;> cases h
    · refine ⟨?_, by omega, by omega, by omega, .inr rfl⟩
      simp only [decide_eq_true_eq]
      split <;> omega
    · refine ⟨?_, by omega, by omega, by omega, .inl (by omega)⟩
      simp only [decide_eq_true_eq]
      split <;> omega

theorem ofPattern_eq {x : Number} {negative : Bool} {m : Nat} {q : Int}
    (h : Finite x negative m q) : ofPattern negative ((q + 1074).toNat * 2 ^ 52 + m) = x := by
  obtain ⟨hbits, hm, hq, hq', hn⟩ := h
  have hmin :
      min ((q + 1074).toNat * 2 ^ 52 + m) infinityPattern = (q + 1074).toNat * 2 ^ 52 + m := by
    unfold infinityPattern
    omega
  unfold ofPattern
  rw [hmin, ← hbits]
  change Float.ofBits (UInt64.ofNat x.toBits.toNat) = x
  rw [UInt64.ofNat_toNat, Float.ofBits_toBits]

theorem ofPattern_zero {x : Number} {negative : Bool} {q : Int} (h : Finite x negative 0 q) :
    ofPattern negative 0 = x := by
  have hq : q = -1074 := h.normal.resolve_left (by decide)
  have hpattern : (q + 1074).toNat * 2 ^ 52 + 0 = 0 := by simp [hq]
  rw [← ofPattern_eq h, hpattern]

/-- Finite numbers are equal to themselves. -/
theorem Finite.beq_self {x : Number} {negative : Bool} {m : Nat} {q : Int}
    (h : Finite x negative m q) : (x == x) = true := by
  rw [Float.beq_self_iff]
  rintro rfl
  have hbits : 0x7ff8000000000000 = _ := h.bits
  obtain ⟨-, hm, hq, hq', hn⟩ := h
  split at hbits <;> omega

theorem zero_beq (negative : Bool) : (ofPattern false 0 == ofPattern negative 0) = true := by
  cases negative <;> decide

/-- A rational rounded to a natural, a half going to the even neighbour. -/
def roundEven (r : ℚ) : Nat :=
  if 2 * (r - ⌊r⌋₊) < 1 then ⌊r⌋₊
  else if 1 < 2 * (r - ⌊r⌋₊) then ⌊r⌋₊ + 1
  else ⌊r⌋₊ + ⌊r⌋₊ % 2

/-- The pattern of the number nearest to a rational, ties to even. -/
def patternNear (r : ℚ) : Nat :=
  if r = 0 then 0
  else
    let q := max (Int.log 2 r - 52) (-1074)
    (q + 1074).toNat * 2 ^ 52 + roundEven (r / 2 ^ q)

theorem zpow_eq_toNat_div (b : ℚ) (e : Int) :
    b ^ e = b ^ e.toNat / b ^ (-e).toNat := by
  rcases Int.le_total 0 e with he | he
  · lift e to ℕ using he
    simp
  · obtain ⟨n, rfl⟩ : ∃ n : ℕ, e = -n := ⟨(-e).toNat, by omega⟩
    simp

theorem roundDiv_eq {num den : Nat} (hd : 0 < den) : roundDiv num den = roundEven (num / den) := by
  have hden : (0 : ℚ) < den := by exact_mod_cast hd
  have hrest : (num : ℚ) / den - ((num / den : ℕ) : ℚ) = (num % den : ℕ) / den := by
    have hsplit : ((den * (num / den) + num % den : ℕ) : ℚ) = num := by rw [Nat.div_add_mod]
    push_cast at hsplit
    field_simp
    linarith
  have htwice : 2 * ((num % den : ℕ) / (den : ℚ)) = (2 * (num % den) : ℕ) / den := by
    push_cast
    ring
  unfold roundDiv roundEven
  simp only [Nat.floor_div_eq_div, hrest, htwice, div_lt_one hden, one_lt_div hden, Nat.cast_lt]

theorem le_div_iff_toNat {num den : Nat} (hd : 0 < den) (e : Int) :
    den * 2 ^ e.toNat ≤ num * 2 ^ (-e).toNat ↔ (2 : ℚ) ^ e ≤ num / den := by
  have hden : (0 : ℚ) < den := by exact_mod_cast hd
  rw [zpow_eq_toNat_div, div_le_div_iff₀ (by positivity) hden, mul_comm den]
  exact_mod_cast Iff.rfl

theorem log2_bounds {n : Nat} (hn : 0 < n) :
    (2 : ℚ) ^ (n.log2 : Int) ≤ n ∧ (n : ℚ) < 2 ^ ((n.log2 : Int) + 1) := by
  constructor
  · exact_mod_cast Nat.log2_self_le hn.ne'
  · exact_mod_cast Nat.lt_log2_self

theorem binaryExponent_eq {num den : Nat} (hn : 0 < num) (hd : 0 < den) :
    binaryExponent num den = Int.log 2 (num / den : ℚ) := by
  have hnum : (0 : ℚ) < num := by exact_mod_cast hn
  have hden : (0 : ℚ) < den := by exact_mod_cast hd
  have hr : (0 : ℚ) < num / den := div_pos hnum hden
  have hlo : (num.log2 : Int) - den.log2 - 1 ≤ Int.log 2 (num / den : ℚ) := by
    rw [← Int.zpow_le_iff_le_log (by decide) hr, le_div_iff₀ hden, Nat.cast_ofNat]
    calc (2 : ℚ) ^ ((num.log2 : Int) - den.log2 - 1) * den
        ≤ 2 ^ ((num.log2 : Int) - den.log2 - 1) * 2 ^ ((den.log2 : Int) + 1) := by
          gcongr
          exact (log2_bounds hd).2.le
      _ = 2 ^ (num.log2 : Int) := by rw [← zpow_add₀ two_ne_zero]; congr 1; ring
      _ ≤ num := (log2_bounds hn).1
  have hhi : Int.log 2 (num / den : ℚ) < (num.log2 : Int) - den.log2 + 1 := by
    rw [← Int.lt_zpow_iff_log_lt (by decide) hr, div_lt_iff₀ hden, Nat.cast_ofNat]
    calc (num : ℚ) < 2 ^ ((num.log2 : Int) + 1) := (log2_bounds hn).2
      _ = 2 ^ ((num.log2 : Int) - den.log2 + 1) * 2 ^ (den.log2 : Int) := by
          rw [← zpow_add₀ two_ne_zero]
          congr 1
          ring
      _ ≤ 2 ^ ((num.log2 : Int) - den.log2 + 1) * den := by
          gcongr
          exact (log2_bounds hd).1
  unfold binaryExponent
  simp only [le_div_iff_toNat hd]
  have hle := @Int.zpow_le_iff_le_log ℚ _ _ _ _ 2 (by decide) ((num.log2 : Int) - den.log2) _ hr
  split <;> rename_i he
  · have := hle.1 (by exact_mod_cast he)
    omega
  · have : ¬ _ := fun h => he (by exact_mod_cast hle.2 h)
    omega

theorem nearestPattern_eq (num : Nat) {den : Nat} (hd : 0 < den) :
    nearestPattern num den = patternNear (num / den) := by
  unfold nearestPattern patternNear
  have hden : (den : ℚ) ≠ 0 := by exact_mod_cast hd.ne'
  by_cases hn : num = 0
  · simp [hn]
  · have hnum : (num : ℚ) / den ≠ 0 := by simp [hn, hden]
    rw [if_neg hn, if_neg hnum, binaryExponent_eq (Nat.pos_of_ne_zero hn) hd]
    simp only
    rw [roundDiv_eq (by positivity)]
    generalize max (Int.log 2 (num / den : ℚ) - 52) (-1074) = q
    congr 2
    rw [zpow_eq_toNat_div 2 q]
    push_cast
    field_simp

/-! Where rounding does nothing, and where it leaves the range. -/

theorem roundEven_natCast (n : Nat) : roundEven n = n := by
  simp [roundEven]

theorem roundEven_of_lt_half {r : ℚ} (h : r < 1 / 2) : roundEven r = 0 := by
  have hfloor : ⌊r⌋₊ = 0 := Nat.floor_eq_zero.2 (by linarith)
  simp only [roundEven, hfloor]
  rw [if_pos (by push_cast; linarith)]

theorem le_roundEven {n : Nat} {r : ℚ} (h : n ≤ r) : n ≤ roundEven r := by
  have hfloor : n ≤ ⌊r⌋₊ := Nat.le_floor h
  unfold roundEven
  split_ifs <;> omega

theorem patternNear_of_exponent {r : ℚ} (hr : 0 < r) {q : Int}
    (hq : max (Int.log 2 r - 52) (-1074) = q) :
    patternNear r = (q + 1074).toNat * 2 ^ 52 + roundEven (r / 2 ^ q) := by
  unfold patternNear
  rw [if_neg hr.ne']
  subst hq
  rfl

theorem patternNear_zpow {m : Nat} {q : Int} (hm : 0 < m) (hm' : m < 2 ^ 53) (hq : -1074 ≤ q)
    (hnormal : 2 ^ 52 ≤ m ∨ q = -1074) :
    patternNear (m * 2 ^ q) = (q + 1074).toNat * 2 ^ 52 + m := by
  have hr : (0 : ℚ) < m * 2 ^ q := by positivity
  have hexp : max (Int.log 2 ((m : ℚ) * 2 ^ q) - 52) (-1074) = q := by
    have hhi : Int.log 2 ((m : ℚ) * 2 ^ q) < 53 + q := by
      rw [← Int.lt_zpow_iff_log_lt (by decide) hr, Nat.cast_ofNat, zpow_add₀ two_ne_zero]
      gcongr
      exact_mod_cast hm'
    rcases hnormal with hnormal | rfl
    · have hlo : 52 + q ≤ Int.log 2 ((m : ℚ) * 2 ^ q) := by
        rw [← Int.zpow_le_iff_le_log (by decide) hr, Nat.cast_ofNat, zpow_add₀ two_ne_zero]
        gcongr
        exact_mod_cast hnormal
      omega
    · omega
  rw [patternNear_of_exponent hr hexp, mul_div_cancel_right₀ _ (by positivity), roundEven_natCast]

theorem patternNear_of_large {r : ℚ} (h : 2 ^ 1024 ≤ r) : infinityPattern ≤ patternNear r := by
  have hr : 0 < r := lt_of_lt_of_le (by positivity) h
  have hlog : 1024 ≤ Int.log 2 r := by
    rw [← Int.zpow_le_iff_le_log (by decide) hr]
    exact_mod_cast h
  have hq : max (Int.log 2 r - 52) (-1074) = Int.log 2 r - 52 := by omega
  have hmantissa : 2 ^ 52 ≤ roundEven (r / 2 ^ (Int.log 2 r - 52)) := by
    apply le_roundEven
    rw [le_div_iff₀ (by positivity)]
    calc ((2 ^ 52 : Nat) : ℚ) * 2 ^ (Int.log 2 r - 52) = 2 ^ Int.log 2 r := by
          rw [sub_eq_add_neg, zpow_add₀ two_ne_zero, mul_left_comm, Nat.cast_pow, Nat.cast_ofNat,
            ← zpow_natCast, ← zpow_add₀ two_ne_zero]
          simp
      _ ≤ r := by exact_mod_cast Int.zpow_log_le_self (b := 2) (by decide) hr
  rw [patternNear_of_exponent hr hq, infinityPattern]
  have hexp : 2046 ≤ (Int.log 2 r - 52 + 1074).toNat := by omega
  omega

theorem patternNear_of_small {r : ℚ} (hr : 0 < r) (h : r < 2 ^ (-1075 : Int)) :
    patternNear r = 0 := by
  have hlog : Int.log 2 r < -1075 := by
    rw [← Int.lt_zpow_iff_log_lt (by decide) hr]
    exact_mod_cast h
  have hq : max (Int.log 2 r - 52) (-1074) = -1074 := by omega
  have hhalf : r / 2 ^ (-1074 : Int) < 1 / 2 := by
    rw [div_lt_iff₀ (zpow_pos two_pos _)]
    calc r < 2 ^ (-1075 : Int) := h
      _ = 2 ^ (-1 + -1074 : Int) := rfl
      _ = 1 / 2 * 2 ^ (-1074 : Int) := by
        rw [zpow_add₀ two_ne_zero, zpow_neg_one, one_div]
  rw [patternNear_of_exponent hr hq, roundEven_of_lt_half hhalf]
  rfl

end Number

namespace Decimal

open Number

def value (d : Decimal) : ℚ := d.digits * 10 ^ d.exponent

theorem two_zpow_le_ten_zpow {e : Int} (he : 0 ≤ e) : (2 : ℚ) ^ (3 * e) ≤ 10 ^ e := by
  rw [zpow_mul]
  exact zpow_le_zpow_left₀ he (by positivity) (by norm_num)

theorem ten_zpow_le_two_zpow {e : Int} (he : e ≤ 0) : (10 : ℚ) ^ e ≤ 2 ^ (3 * e) := by
  have h := two_zpow_le_ten_zpow (neg_nonneg.2 he)
  rw [mul_neg, zpow_neg, zpow_neg] at h
  exact (inv_le_inv₀ (by positivity) (by positivity)).1 h

/-- Cutting off large and small exponents before the rounding changes no number. -/
theorem pattern_eq (d : Decimal) :
    min d.pattern infinityPattern = min (patternNear d.value) infinityPattern := by
  unfold pattern
  split_ifs with hz hlarge hsmall
  · simp [value, hz, patternNear]
  · have hdigits : (1 : ℚ) ≤ d.digits := by exact_mod_cast Nat.one_le_iff_ne_zero.2 hz
    have hvalue : 2 ^ 1024 ≤ d.value := by
      calc (2 : ℚ) ^ 1024 = 2 ^ (1024 : Int) := (zpow_natCast 2 1024).symm
        _ ≤ 2 ^ (3 * d.exponent) := zpow_le_zpow_right₀ one_le_two (by omega)
        _ ≤ 10 ^ d.exponent := two_zpow_le_ten_zpow (by omega)
        _ ≤ d.value := le_mul_of_one_le_left (by positivity) hdigits
    rw [min_eq_right (patternNear_of_large hvalue), min_self]
  · have hd : (0 : ℚ) < d.digits := by exact_mod_cast Nat.pos_of_ne_zero hz
    have hvalue : d.value < 2 ^ (-1075 : Int) := by
      calc d.value < 2 ^ ((d.digits.log2 : Int) + 1) * 10 ^ d.exponent := by
            unfold value
            gcongr
            exact (log2_bounds (Nat.pos_of_ne_zero hz)).2
        _ ≤ 2 ^ ((d.digits.log2 : Int) + 1) * 2 ^ (3 * d.exponent) := by
            gcongr
            exact ten_zpow_le_two_zpow (by omega)
        _ = 2 ^ ((d.digits.log2 : Int) + 1 + 3 * d.exponent) := (zpow_add₀ two_ne_zero ..).symm
        _ ≤ 2 ^ (-1075 : Int) := zpow_le_zpow_right₀ one_le_two (by omega)
    rw [patternNear_of_small (by unfold value; positivity) hvalue]
  · rw [nearestPattern_eq _ (by positivity)]
    congr 2
    rw [value, zpow_eq_toNat_div]
    push_cast
    ring

theorem toNumber_congr {c d : Decimal} (h : c.value = d.value) (negative : Bool) :
    c.toNumber negative = d.toNumber negative := by
  unfold toNumber ofPattern
  rw [pattern_eq, pattern_eq, h]

end Decimal

end Lisplet
