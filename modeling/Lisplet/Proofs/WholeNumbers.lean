import Lisplet.Number.Integral
import Lisplet.Proofs.Rounding
import Mathlib

/-!
Whole numbers. Floating-point operations round an exact result to the nearest significand of full
width. Where the exact result has one, they are exact: so every natural below `2 ^ 53` is a number,
its negation differs in the sign only, and a safe whole number is the one made from its integer. Of
a natural of any size only the significand is cut, so no natural but zero becomes zero.
-/

namespace Lisplet.Number

open Float.Model Float.Model.UnpackedFloat

theorem log2_mul_two_pow {n : Nat} (hn : 0 < n) (k : Nat) : (n * 2 ^ k).log2 = n.log2 + k := by
  obtain ⟨hle, hlt⟩ := (Nat.log2_eq_iff hn.ne').1 rfl
  have hpos : 0 < 2 ^ k := Nat.two_pow_pos k
  rw [Nat.log2_eq_iff (Nat.mul_ne_zero hn.ne' hpos.ne'), Nat.add_right_comm, Nat.pow_add,
    Nat.pow_add]
  exact ⟨Nat.mul_le_mul_right _ hle, Nat.mul_lt_mul_of_pos_right hlt hpos⟩

theorem log2_le_of_lt {n : Nat} (hn : 0 < n) (hlt : n < 2 ^ 53) : n.log2 ≤ 52 :=
  Nat.le_of_lt_succ ((Nat.log2_lt hn.ne').2 hlt)

/-- A significand of full width, and an exponent in range. -/
structure Normal (m : Nat) (q : Int) : Prop where
  le : 2 ^ 52 ≤ m
  lt : m < 2 ^ 53
  le_exponent : -1074 ≤ q
  exponent_lt : q < 972

namespace Normal

variable {m : Nat} {q : Int}

theorem pos (h : Normal m q) : 0 < m := Nat.lt_of_lt_of_le (by decide) h.le

theorem log2_eq (h : Normal m q) : m.log2 = 52 := (Nat.log2_eq_iff h.pos.ne').2 ⟨h.le, h.lt⟩

theorem pack_eq (h : Normal m q) (s : Sign) :
    UnpackedFloat.pack .binary64 (.finite s m q h.pos) =
      packComponents .binary64 s (BitVec.ofNat 11 (q + 1075).toNat) (BitVec.ofNat 52 m) := by
  have hbiased :
      (q + (Format.binary64.exponentBias : Nat) + (52 : Nat)).toNat = (q + 1075).toNat := by
    have hbias : ((Format.binary64.exponentBias : Nat) : Int) = 1023 := rfl
    omega
  have hle := h.exponent_lt
  rw [UnpackedFloat.pack]
  simp only [hbiased]
  rw [if_neg (by omega), if_pos (by rw [h.log2_eq]; rfl)]

theorem toNat_exponent (h : Normal m q) :
    (BitVec.ofNat 11 (q + 1075).toNat).toNat = (q + 1075).toNat := by
  have hq := h.exponent_lt
  rw [BitVec.toNat_ofNat]
  omega

theorem unpack_pack (h : Normal m q) (s : Sign) :
    UnpackedFloat.unpack .binary64 (UnpackedFloat.pack .binary64 (.finite s m q h.pos)) =
      .finite s m q h.pos := by
  have hexponent := h.toNat_exponent
  have hmantissa : (1#1 ++ BitVec.ofNat 52 m).toNat = m := by
    rw [BitVec.toNat_append, ← Nat.shiftLeft_add_eq_or_of_lt (BitVec.isLt _), BitVec.toNat_ofNat,
      BitVec.toNat_ofNat, Nat.shiftLeft_eq]
    have hle := h.le
    have hlt := h.lt
    omega
  have hones : BitVec.ofNat 11 (q + 1075).toNat ≠ -1#11 := by
    have hq := h.exponent_lt
    rw [ne_eq, ← BitVec.toNat_inj, hexponent]
    simp
    omega
  have hzero : BitVec.ofNat 11 (q + 1075).toNat ≠ 0#11 := by
    have hq := h.le_exponent
    rw [ne_eq, ← BitVec.toNat_inj, hexponent]
    simp
    omega
  rw [h.pack_eq, UnpackedFloat.unpack]
  simp only [unpackMantissa_packComponents, unpackExponent_packComponents,
    unpackSign_packComponents, hmantissa, hexponent]
  rw [if_neg hones, if_neg hzero]
  have hq : ((q + 1075).toNat : Int) - ((Format.binary64.exponentBias : Nat) + (52 : Nat)) = q := by
    have hbias : ((Format.binary64.exponentBias : Nat) : Int) = 1023 := rfl
    have hle := h.le_exponent
    omega
  congr 1
  cases s <;> rfl

theorem finite_pack (h : Normal m q) (negative : Bool) :
    Finite (.ofModel (Float.Model.pack (.finite (if negative then .negative else .positive) m q
      h.pos))) negative m q := by
  refine ⟨?_, h.lt, h.le_exponent, h.exponent_lt, .inl h.le⟩
  change (UnpackedFloat.pack .binary64 _).toNat = _
  rw [h.pack_eq, packComponents, BitVec.toNat_append, BitVec.toNat_append,
    ← Nat.shiftLeft_add_eq_or_of_lt (BitVec.isLt _),
    ← Nat.shiftLeft_add_eq_or_of_lt (BitVec.isLt _)]
  have hexponent := h.toNat_exponent
  have hmantissa : (BitVec.ofNat 52 m).toNat = m - 2 ^ 52 := by
    have hle := h.le
    have hlt := h.lt
    rw [BitVec.toNat_ofNat]
    omega
  rw [hexponent, hmantissa, Nat.shiftLeft_eq, Nat.shiftLeft_eq]
  have hle := h.le
  have hq := h.le_exponent
  cases negative <;> simp [Sign.toBitVec] <;> omega

/-- Dropping bits that are all zero leaves nothing to round. -/
theorem repeat_shiftRightOne (m k : Nat) :
    k.repeat ExtendedMantissa.shiftRightOne ⟨m * 2 ^ k, false, false⟩ = ⟨m, false, false⟩ := by
  induction k generalizing m with
  | zero => simp [Nat.repeat]
  | succ k ih =>
    have hmul : m * 2 ^ (k + 1) = m * 2 * 2 ^ k := by rw [Nat.pow_succ]; ring
    rw [Nat.repeat, hmul, ih]
    simp [ExtendedMantissa.shiftRightOne]

theorem shiftToTargetExponent_eq (h : Normal m q) (k : Nat) :
    shiftToTargetExponent .binary64 (m * 2 ^ k) (q - k) .exact = (⟨m, false, false⟩, q) := by
  have htarget : Format.binary64.targetExponent (totalExponent (m * 2 ^ k) (q - k)) = q := by
    have hq := h.le_exponent
    simp only [Format.targetExponent, totalExponent, Format.mantissaBits, Format.minExponent,
      log2_mul_two_pow h.pos, h.log2_eq]
    omega
  have hshift : (q - (q - k)).toNat = k := by omega
  simp only [shiftToTargetExponent, htarget, shiftToExponent, hshift]
  refine Prod.ext (repeat_shiftRightOne m k) ?_
  simp

/-- A value that has a significand of full width is rounded to it. -/
theorem roundWithAccuracy_eq (h : Normal m q) (s : Sign) (k : Nat) :
    roundWithAccuracy .binary64 s (m * 2 ^ k) (q - k) .exact = .finite s m q h.pos := by
  have hsecond := h.shiftToTargetExponent_eq 0
  rw [Nat.pow_zero, Nat.mul_one, Int.natCast_zero, Int.sub_zero] at hsecond
  have hrounded : ExtendedMantissa.roundedMantissa ⟨m, false, false⟩ = m := rfl
  simp only [roundWithAccuracy, h.shiftToTargetExponent_eq k, hrounded, hsecond]
  rw [dif_neg h.pos.ne']

end Normal

/-- The width of a natural, brought to that of a significand. -/
theorem normal_of_lt {n : Nat} (hn : 0 < n) (hlt : n < 2 ^ 53) :
    Normal (n * 2 ^ (52 - n.log2)) (n.log2 - 52) := by
  obtain ⟨hle, hlt'⟩ := (Nat.log2_eq_iff hn.ne').1 rfl
  have hlog := log2_le_of_lt hn hlt
  have hpow : 2 ^ n.log2 * 2 ^ (52 - n.log2) = 2 ^ 52 := by
    rw [← Nat.pow_add]
    congr 1
    omega
  refine ⟨?_, ?_, by omega, by omega⟩
  · rw [← hpow]
    exact Nat.mul_le_mul_right _ hle
  · calc n * 2 ^ (52 - n.log2) < 2 ^ (n.log2 + 1) * 2 ^ (52 - n.log2) :=
          Nat.mul_lt_mul_of_pos_right hlt' (Nat.two_pow_pos _)
      _ = 2 ^ 53 := by rw [Nat.pow_succ, Nat.mul_right_comm, hpow]

theorem unpacked_ofNat {n : Nat} (hn : 0 < n) (hlt : n < 2 ^ 53) :
    UnpackedFloat.ofNat .binary64 n =
      .finite .positive (n * 2 ^ (52 - n.log2)) (n.log2 - 52) (normal_of_lt hn hlt).pos := by
  have hround := (normal_of_lt hn hlt).roundWithAccuracy_eq .positive 0
  rw [Nat.pow_zero, Nat.mul_one, Int.natCast_zero, Int.sub_zero] at hround
  have hgt : compare (n : Int) 0 = .gt := by
    rw [Int.compare_eq_gt]
    omega
  have htarget : Format.binary64.targetExponent (totalExponent n 0) = n.log2 - 52 := by
    simp only [Format.targetExponent, totalExponent, Format.mantissaBits, Format.minExponent]
    omega
  have hlog := log2_le_of_lt hn hlt
  have hshift : (0 - ((n.log2 : Int) - 52)).toNat = 52 - n.log2 := by omega
  have hexponent : 0 - ((52 - n.log2 : Nat) : Int) = n.log2 - 52 := by omega
  simp only [UnpackedFloat.ofNat, UnpackedFloat.ofInt, UnpackedFloat.normalize, hgt,
    UnpackedFloat.round, Int.toNat_natCast, htarget, decreaseExponent, hshift, Nat.shiftLeft_eq,
    hexponent, hround]

theorem ofNat_eq {n : Nat} (hn : 0 < n) (hlt : n < 2 ^ 53) :
    Float.ofNat n = .ofModel (Float.Model.pack (.finite .positive (n * 2 ^ (52 - n.log2))
      (n.log2 - 52) (normal_of_lt hn hlt).pos)) := by
  have hnormal := normal_of_lt hn hlt
  have hword : n.toUInt64.toNat = n := by
    rw [Nat.toUInt64_eq, UInt64.toNat_ofNat']
    omega
  have hone : (Float.ofBits 0x3FF0000000000000).toModel.unpack =
      .finite .positive (2 ^ 52) (-52) (by decide) := rfl
  have hmul : Float.ofNat n = n.toUInt64.toFloat * Float.ofBits 0x3FF0000000000000 := by
    change Float.ofScientific n false 0 = _
    rw [Float.ofScientific, dif_pos ⟨hlt, by decide⟩]
    rfl
  rw [hmul]
  change Float.ofModel (Float.Model.pack (UnpackedFloat.mul .binary64
    (Float.Model.unpack (Float.Model.pack (UnpackedFloat.ofNat .binary64 n.toUInt64.toNat)))
    (Float.Model.unpack (Float.ofBits 0x3FF0000000000000).toModel))) = _
  have hunpack := hnormal.unpack_pack .positive
  have hround := hnormal.roundWithAccuracy_eq .positive 52
  rw [hword, unpacked_ofNat hn hlt, hone]
  change Float.ofModel (Float.Model.pack (UnpackedFloat.mul .binary64
    (UnpackedFloat.unpack .binary64 (UnpackedFloat.pack .binary64 _)) _)) = _
  rw [hunpack]
  change Float.ofModel (Float.Model.pack
    (roundWithAccuracy .binary64 .positive _ ((n.log2 - 52 : Int) + -52) .exact)) = _
  rw [← Int.sub_eq_add_neg]
  exact congrArg (Float.ofModel ∘ Float.Model.pack) hround

theorem neg_eq {m : Nat} {q : Int} (h : Normal m q) :
    -Float.ofModel (Float.Model.pack (.finite .positive m q h.pos)) =
      .ofModel (Float.Model.pack (.finite .negative m q h.pos)) := by
  change Float.ofModel (Float.Model.pack
    (UnpackedFloat.unpack .binary64 (UnpackedFloat.pack .binary64 _)).neg) = _
  rw [h.unpack_pack]
  rfl

/-- The number of an integer, its magnitude as a natural and then its sign. -/
def ofSigned (negative : Bool) (n : Nat) : Number :=
  if negative then -Float.ofNat n else Float.ofNat n

theorem finite_ofSigned (negative : Bool) {n : Nat} (hn : 0 < n) (hlt : n < 2 ^ 53) :
    Finite (ofSigned negative n) negative (n * 2 ^ (52 - n.log2)) (n.log2 - 52) := by
  have hfinite := (normal_of_lt hn hlt).finite_pack negative
  cases negative with
  | false => rwa [ofSigned, if_neg Bool.false_ne_true, ofNat_eq hn hlt]
  | true => rwa [ofSigned, if_pos rfl, ofNat_eq hn hlt, neg_eq (normal_of_lt hn hlt)]

/-- The number is the integer, which is in the range where all integers are numbers. -/
structure IsSafe (x : Number) (n : Int) : Prop where
  integral : x.isIntegral = true
  toInt : x.toInt? = some n
  le : n.natAbs ≤ maxSafe

/-- The whole part of a magnitude that has no other. -/
theorem whole_mul {m : Nat} {q : Int} (h : (splitWhole m q).2 = false) :
    m * 2 ^ q.toNat = (splitWhole m q).1 * 2 ^ (-q).toNat := by
  have hdvd : 2 ^ (-q).toNat ∣ m := by simpa [splitWhole, Nat.dvd_iff_mod_eq_zero] using h
  exact (Nat.div_mul_cancel (hdvd.mul_right _)).symm

/-- A whole number below `2 ^ 53` has one significand and exponent. -/
theorem parts_of_mul {m n : Nat} {q : Int} (hm : m < 2 ^ 53) (hnormal : 2 ^ 52 ≤ m ∨ q = -1074)
    (hn : 0 < n) (hlt : n < 2 ^ 53) (hmul : m * 2 ^ q.toNat = n * 2 ^ (-q).toNat) :
    m = n * 2 ^ (52 - n.log2) ∧ q = n.log2 - 52 := by
  have hpos : 0 < m := by
    rw [Nat.pos_iff_ne_zero]
    rintro rfl
    rw [Nat.zero_mul, eq_comm, Nat.mul_eq_zero] at hmul
    exact hmul.elim hn.ne' (Nat.two_pow_pos _).ne'
  have hlog := congrArg Nat.log2 hmul
  rw [log2_mul_two_pow hpos, log2_mul_two_pow hn] at hlog
  have hm' := log2_le_of_lt hpos hm
  have hn' := log2_le_of_lt hn hlt
  have hle : 52 ≤ m.log2 := (Nat.le_log2 hpos.ne').2 (hnormal.resolve_right (by omega))
  obtain rfl : q = n.log2 - 52 := by omega
  have hzero : ((n.log2 : Int) - 52).toNat = 0 := by omega
  have hshift : (-((n.log2 : Int) - 52)).toNat = 52 - n.log2 := by omega
  rw [hzero, hshift, Nat.pow_zero, Nat.mul_one] at hmul
  exact ⟨hmul, rfl⟩

theorem IsSafe.exists_parts {x : Number} {n : Int} (h : IsSafe x n) :
    ∃ negative m q, x.parts = .finite negative m q := by
  have hint := h.toInt
  unfold toInt? at hint
  cases hparts : x.parts with
  | nan => rw [hparts] at hint; cases hint
  | infinite negative => rw [hparts] at hint; cases hint
  | finite negative m q => exact ⟨negative, m, q, rfl⟩

/-- What the parts of a safe number say about its integer. -/
theorem IsSafe.whole {x : Number} {n : Int} (h : IsSafe x n) {negative : Bool} {m : Nat} {q : Int}
    (hparts : x.parts = .finite negative m q) :
    m * 2 ^ q.toNat = n.natAbs * 2 ^ (-q).toNat ∧
      n = if negative then -(n.natAbs : Int) else n.natAbs := by
  obtain ⟨hintegral, hint, -⟩ := h
  simp only [isIntegral, toInt?, hparts, Bool.not_eq_true', Option.some_inj] at hintegral hint
  have habs : n.natAbs = (splitWhole m q).1 := by
    rw [← hint]
    split <;> omega
  rw [habs]
  exact ⟨whole_mul hintegral, hint.symm⟩

theorem IsSafe.isFinite {x : Number} {n : Int} (h : IsSafe x n) : x.isFinite = true := by
  obtain ⟨negative, m, q, hparts⟩ := h.exists_parts
  rw [Number.isFinite, hparts]

theorem IsSafe.beq_self {x : Number} {n : Int} (h : IsSafe x n) : (x == x) = true := by
  obtain ⟨negative, m, q, hparts⟩ := h.exists_parts
  exact (finite_of_parts hparts).beq_self

theorem IsSafe.lt {x : Number} {n : Int} (h : IsSafe x n) : n.natAbs < 2 ^ 53 :=
  Nat.lt_of_le_of_lt h.le (by decide)

/-- A safe whole number is the one made from its integer; only the sign of zero is lost. -/
theorem IsSafe.beq {x : Number} {n : Int} (h : IsSafe x n) :
    (ofSigned (n < 0) n.natAbs == x) = true := by
  obtain ⟨negative, m, q, hparts⟩ := h.exists_parts
  obtain ⟨hmul, hsign⟩ := h.whole hparts
  have hfinite := finite_of_parts hparts
  rcases Nat.eq_zero_or_pos n.natAbs with hzero | hpos
  · obtain rfl : m = 0 := by
      rw [hzero, Nat.zero_mul, Nat.mul_eq_zero] at hmul
      exact hmul.resolve_right (Nat.two_pow_pos _).ne'
    obtain rfl := Int.natAbs_eq_zero.1 hzero
    rw [← ofPattern_zero hfinite]
    exact zero_beq negative
  · have hnegative : decide (n < 0) = negative := by
      cases negative with
      | false =>
        rw [if_neg Bool.false_ne_true] at hsign
        exact decide_eq_false (by omega)
      | true =>
        rw [if_pos rfl] at hsign
        exact decide_eq_true (by omega)
    obtain ⟨rfl, rfl⟩ := parts_of_mul hfinite.mantissa_lt hfinite.normal hpos h.lt hmul
    rw [hnegative, ← ofPattern_eq (finite_ofSigned negative hpos h.lt), ofPattern_eq hfinite]
    exact hfinite.beq_self

/-! Naturals of any size. -/

theorem mantissa_repeat (k : Nat) (em : ExtendedMantissa) :
    (k.repeat ExtendedMantissa.shiftRightOne em).mantissa = em.mantissa / 2 ^ k := by
  induction k generalizing em with
  | zero => simp [Nat.repeat]
  | succ k ih =>
    rw [Nat.repeat, ExtendedMantissa.shiftRightOne, ih, Nat.pow_succ, Nat.div_div_eq_div_mul]

theorem mantissa_le_rounded (em : ExtendedMantissa) : em.mantissa ≤ em.roundedMantissa := by
  obtain ⟨m, r, t⟩ := em
  cases r <;> cases t
  · exact Nat.le_refl m
  · exact Nat.le_refl m
  · exact Nat.le_add_right m _
  · exact Nat.le_add_right m 1

/-- A significand that is wide enough is cut to full width, which only raises the exponent. -/
theorem shiftToTargetExponent_wide {m : Nat} {q : Int} (hm : 2 ^ 52 ≤ m) (hq : -1074 ≤ q) :
    let shifted := shiftToTargetExponent .binary64 m q .exact
    2 ^ 52 ≤ shifted.1.mantissa ∧ shifted.1.mantissa < 2 ^ 53 ∧ q ≤ shifted.2 := by
  have hpos : m ≠ 0 := by omega
  obtain ⟨hle, hlt⟩ := (Nat.log2_eq_iff hpos).1 rfl
  have hlog : 52 ≤ m.log2 := (Nat.le_log2 hpos).2 hm
  obtain ⟨k, hk⟩ := Nat.exists_eq_add_of_le hlog
  have htarget : Format.binary64.targetExponent (totalExponent m q) = q + k := by
    simp only [Format.targetExponent, totalExponent, Format.mantissaBits, Format.minExponent]
    omega
  have hshift : (q + k - q).toNat = k := by omega
  have hmantissa : (shiftToTargetExponent .binary64 m q .exact).1.mantissa = m / 2 ^ k := by
    simp only [shiftToTargetExponent, htarget, shiftToExponent, hshift]
    exact mantissa_repeat k _
  have hexponent : (shiftToTargetExponent .binary64 m q .exact).2 = q + k := by
    simp only [shiftToTargetExponent, htarget, shiftToExponent, hshift]
  rw [hk, Nat.pow_add] at hle
  rw [hk, Nat.add_right_comm, Nat.pow_add] at hlt
  dsimp only
  rw [hmantissa, hexponent]
  exact ⟨(Nat.le_div_iff_mul_le (Nat.two_pow_pos k)).2 hle,
    Nat.div_lt_of_lt_mul (Nat.mul_comm _ _ ▸ hlt), by omega⟩

theorem roundWithAccuracy_wide (s : Sign) {m : Nat} {q : Int} (hm : 2 ^ 52 ≤ m)
    (hq : -1074 ≤ q) :
    ∃ m' q' h, roundWithAccuracy .binary64 s m q .exact = .finite s m' q' h ∧
      2 ^ 52 ≤ m' ∧ m' < 2 ^ 53 ∧ -1074 ≤ q' := by
  obtain ⟨hfirst, -, hq'⟩ := shiftToTargetExponent_wide hm hq
  obtain ⟨hle, hlt, hq''⟩ := shiftToTargetExponent_wide
    (hfirst.trans (mantissa_le_rounded _)) (hq.trans hq')
  refine ⟨_, _, Nat.lt_of_lt_of_le (by decide) hle, dif_neg ?_, hle, hlt, by omega⟩
  exact (Nat.lt_of_lt_of_le (by decide) hle).ne'

/-- No number with a significand of full width is zero, even if it is too large to be finite. -/
theorem pack_beq_zero {m : Nat} {q : Int} (hle : 2 ^ 52 ≤ m) (hlt : m < 2 ^ 53) (hq : -1074 ≤ q)
    (hpos : 0 < m) :
    (Float.ofModel (Float.Model.pack (.finite .positive m q hpos)) == 0) = false := by
  change (UnpackedFloat.unpack .binary64 (UnpackedFloat.pack .binary64
    (.finite .positive m q hpos))).beq (Float.Model.unpack (Float.toModel 0)) = false
  by_cases hexponent : q < 972
  · rw [Normal.unpack_pack ⟨hle, hlt, hq, hexponent⟩]
    rfl
  · have hpack : UnpackedFloat.pack .binary64 (.finite .positive m q hpos) =
        packedInfinity .binary64 .positive := by
      have hbias : ((Format.binary64.exponentBias : Nat) : Int) = 1023 := rfl
      have hbits : ((Format.binary64.mantissaBitsWithoutImplicit : Nat) : Int) = 52 := rfl
      rw [UnpackedFloat.pack]
      refine if_pos ?_
      change 2048 ≤ _
      omega
    rw [hpack]
    rfl

/-- From `2 ^ 53` on a natural is rounded in one step. -/
theorem ofNat_of_le {n : Nat} (h : 2 ^ 53 ≤ n) :
    Float.ofNat n = .ofModel (Float.Model.pack
      (roundWithAccuracy .binary64 .positive (n <<< 53 * 10 ^ 0) (-53 + 0) .exact)) := by
  have hunpacked : UnpackedFloat.ofScientific .binary64 n 0 =
      roundWithAccuracy .binary64 .positive (n <<< 53 * 10 ^ 0) (-53 + 0) .exact := by
    have hbits : ((2 : Int) ^ Format.binary64.exponentBits) = 2048 := rfl
    rw [UnpackedFloat.ofScientific, dif_neg (by omega), hbits, if_neg (by decide),
      if_neg (by omega), if_pos (Int.le_refl 0)]
    rfl
  rw [← hunpacked]
  change Float.ofScientific n false 0 = _
  rw [Float.ofScientific, dif_neg fun hsmall => absurd hsmall.1 (by omega)]
  rfl

/-- The number of a positive natural has a significand of full width. -/
theorem exists_pack_ofNat {n : Nat} (hn : 0 < n) :
    ∃ m q h, Float.ofNat n = .ofModel (Float.Model.pack (.finite .positive m q h)) ∧
      2 ^ 52 ≤ m ∧ m < 2 ^ 53 ∧ -1074 ≤ q := by
  rcases Nat.lt_or_ge n (2 ^ 53) with hlt | hge
  · have hnormal := normal_of_lt hn hlt
    exact ⟨_, _, hnormal.pos, ofNat_eq hn hlt, hnormal.le, hnormal.lt, hnormal.le_exponent⟩
  · have hwide : 2 ^ 52 ≤ n <<< 53 * 10 ^ 0 := by
      rw [Nat.shiftLeft_eq, Nat.pow_zero, Nat.mul_one]
      omega
    obtain ⟨m, q, hpos, heq, hbounds⟩ :=
      roundWithAccuracy_wide .positive (q := -53 + 0) hwide (by decide)
    exact ⟨m, q, hpos, by rw [ofNat_of_le hge, heq], hbounds⟩

/-- The number of a natural equals zero only if the natural is zero. -/
theorem ofNat_beq_zero (n : Nat) : (Float.ofNat n == 0) = decide (n = 0) := by
  rcases Nat.eq_zero_or_pos n with rfl | hn
  · decide
  · obtain ⟨m, q, hpos, heq, hle, hlt, hq⟩ := exists_pack_ofNat hn
    rw [decide_eq_false hn.ne', heq]
    exact pack_beq_zero hle hlt hq hpos

end Lisplet.Number
