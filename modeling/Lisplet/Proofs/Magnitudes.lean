import Lisplet.Proofs.WholeNumbers

/-!
Numbers by what they stand for. The parts of a number are those that floating-point operations work
on, and comparing two finite numbers compares the rationals they stand for. A sum of whole numbers
is exact where it is a natural in the range where all naturals are numbers, and a difference has the
sign of the exact one where it is not.
-/

namespace Lisplet.Number

open Float.Model Float.Model.UnpackedFloat

/-! Parts. -/

/-- The sign in the form that operations work on. -/
def unpackedSign (negative : Bool) : Sign := if negative then .negative else .positive

/-- The parts in the form that operations work on. -/
def Parts.unpacked : Parts → UnpackedFloat
  | .nan => .notANumber
  | .infinite negative => .infinity (unpackedSign negative)
  | .finite negative m q =>
    if h : 0 < m then .finite (unpackedSign negative) m q h else .zero (unpackedSign negative)

theorem toNat_unpackMantissa (b : BitVec Format.binary64.numBits) :
    (unpackMantissa b).toNat = b.toNat % 2 ^ 52 := by
  simp [unpackMantissa, BitVec.extractLsb_toNat]

theorem toNat_unpackExponent (b : BitVec Format.binary64.numBits) :
    (unpackExponent b).toNat = b.toNat / 2 ^ 52 % 2 ^ 11 := by
  simp [unpackExponent, BitVec.extractLsb_toNat, Nat.shiftRight_eq_div_pow]

theorem toNat_unpackSign (b : BitVec Format.binary64.numBits) :
    (unpackSign b).toNat = b.toNat / 2 ^ 63 % 2 := by
  simp [unpackSign, BitVec.extractLsb_toNat, Nat.shiftRight_eq_div_pow]

theorem ofBitVec_unpackSign (b : BitVec Format.binary64.numBits) :
    Sign.ofBitVec (unpackSign b) = unpackedSign (decide (2 ^ 63 ≤ b.toNat)) := by
  have hsign := toNat_unpackSign b
  have hlt : b.toNat < 2 ^ 64 := b.isLt
  unfold unpackedSign
  by_cases hb : 2 ^ 63 ≤ b.toNat
  · have hone : unpackSign b = 1#1 := by
      rw [← BitVec.toNat_inj, hsign]
      simp
      omega
    simp [hb, hone]
    rfl
  · have hzero : unpackSign b = 0#1 := by
      rw [← BitVec.toNat_inj, hsign]
      simp
      omega
    simp [hb, hzero]
    rfl

/-- The parts that bits spell. -/
def Parts.ofBits (bits : Nat) : Parts :=
  if bits / 2 ^ 52 % 2 ^ 11 = 2047 then
    if bits % 2 ^ 52 = 0 then .infinite (decide (2 ^ 63 ≤ bits)) else .nan
  else if bits / 2 ^ 52 % 2 ^ 11 = 0 then
    .finite (decide (2 ^ 63 ≤ bits)) (bits % 2 ^ 52) (-1074)
  else
    .finite (decide (2 ^ 63 ≤ bits)) (bits % 2 ^ 52 + 2 ^ 52)
      (((bits / 2 ^ 52 % 2 ^ 11 : Nat) : Int) - 1075)

theorem unpack_bits (b : BitVec Format.binary64.numBits) :
    UnpackedFloat.unpack .binary64 b = (Parts.ofBits b.toNat).unpacked := by
  have hmantissa := toNat_unpackMantissa b
  have hexponent := toNat_unpackExponent b
  have hones : unpackExponent b = -1#_ ↔ b.toNat / 2 ^ 52 % 2 ^ 11 = 2047 := by
    rw [← BitVec.toNat_inj, hexponent]
    rfl
  have hzeros : unpackExponent b = 0#_ ↔ b.toNat / 2 ^ 52 % 2 ^ 11 = 0 := by
    rw [← BitVec.toNat_inj, hexponent]
    rfl
  have hzero : unpackMantissa b = 0#_ ↔ b.toNat % 2 ^ 52 = 0 := by
    rw [← BitVec.toNat_inj, hmantissa]
    rfl
  rw [UnpackedFloat.unpack]
  simp only [ofBitVec_unpackSign]
  unfold Parts.ofBits
  by_cases hinf : b.toNat / 2 ^ 52 % 2 ^ 11 = 2047
  · rw [if_pos (hones.2 hinf), if_pos hinf]
    by_cases hm : b.toNat % 2 ^ 52 = 0
    · rw [if_pos (hzero.2 hm), if_pos hm]
      rfl
    · rw [if_neg (hzero.not.2 hm), if_neg hm]
      rfl
  · rw [if_neg (hones.not.2 hinf), if_neg hinf]
    by_cases hsub : b.toNat / 2 ^ 52 % 2 ^ 11 = 0
    · rw [if_pos (hzeros.2 hsub), if_pos hsub]
      by_cases hm : b.toNat % 2 ^ 52 = 0
      · rw [dif_pos (hzero.2 hm)]
        simp [Parts.unpacked, hm]
      · rw [dif_neg (hzero.not.2 hm)]
        simp only [Parts.unpacked, dif_pos (Nat.pos_of_ne_zero hm), hexponent, hmantissa, hsub]
        rfl
    · rw [if_neg (hzeros.not.2 hsub), if_neg hsub]
      have hwide : (1#1 ++ unpackMantissa b).toNat = b.toNat % 2 ^ 52 + 2 ^ 52 := by
        rw [BitVec.toNat_append, ← Nat.shiftLeft_add_eq_or_of_lt (BitVec.isLt _), hmantissa]
        rw [Nat.add_comm]
        rfl
      simp only [Parts.unpacked, dif_pos (Nat.add_pos_right _ (Nat.two_pow_pos 52)), hexponent,
        hwide]
      rfl

theorem unpack_eq (x : Number) : x.toModel.unpack = x.parts.unpacked :=
  unpack_bits x.toModel.toBits.toBitVec

namespace Finite

variable {x y : Number} {a b : Bool} {m n : Nat} {q p : Int}

theorem parts_eq (h : Finite x a m q) : x.parts = .finite a m q := by
  obtain ⟨hbits, hm, hq, hq', hn⟩ := h
  change Parts.ofBits x.toBits.toNat = _
  generalize x.toBits.toNat = bits at hbits
  have hsign : decide (2 ^ 63 ≤ bits) = a := by
    cases a <;> simp at hbits ⊢ <;> omega
  have hfields : bits / 2 ^ 52 % 2 ^ 11 = (q + 1074).toNat + m / 2 ^ 52 ∧
      bits % 2 ^ 52 = m % 2 ^ 52 := by
    cases a <;> simp at hbits <;> omega
  unfold Parts.ofBits
  rw [hsign, hfields.1, hfields.2, if_neg (by omega)]
  split
  · congr 1 <;> omega
  · congr 1 <;> omega

theorem unpack_eq (h : Finite x a m q) :
    x.toModel.unpack = (Parts.finite a m q).unpacked := by
  rw [Number.unpack_eq, h.parts_eq]

theorem isNaN_eq (h : Finite x a m q) : x.isNaN = false := by
  have hne := Float.beq_self_iff.1 h.beq_self
  simp [Float.isNaN_eq_decide_eq_nan, hne]

end Finite

/-! Order. -/

theorem lt_iff_compare (x y : Number) :
    x < y ↔ x.toModel.unpack.compare y.toModel.unpack = some .lt := by
  change decide (x.toModel < y.toModel) = true ↔ _
  rw [decide_eq_true_eq]
  change (x.toModel.unpack.compare y.toModel.unpack == some .lt) = true ↔ _
  rw [beq_iff_eq]

/-- A rational and its sign. -/
def withSign (negative : Bool) (r : ℚ) : ℚ := if negative then -r else r

theorem mul_zpow_lt {m n : Nat} {q p : Int} (hm : m < 2 ^ 53) (hn : 2 ^ 52 ≤ n) (h : q < p) :
    (m : ℚ) * 2 ^ q < n * 2 ^ p :=
  calc (m : ℚ) * 2 ^ q < 2 ^ 53 * 2 ^ q := by
        gcongr
        exact_mod_cast hm
    _ = 2 ^ 52 * 2 ^ (q + 1) := by
        rw [zpow_add_one₀ two_ne_zero]
        ring
    _ ≤ n * 2 ^ p := by
        gcongr
        · exact_mod_cast hn
        · exact one_le_two
        · omega

/-- Of two magnitudes with significands in range the one with the larger exponent is larger. -/
theorem compare_magnitudes {x y : Number} {a b : Bool} {m n : Nat} {q p : Int}
    (hx : Finite x a m q) (hy : Finite y b n p) :
    (compare q p).then (compare m n) = .lt ↔ (m : ℚ) * 2 ^ q < n * 2 ^ p := by
  rcases lt_trichotomy q p with h | rfl | h
  · have hn : 2 ^ 52 ≤ n := hy.normal.resolve_right (by have := hx.le_exponent; omega)
    rw [compare_lt_iff_lt.2 h]
    exact iff_of_true rfl (mul_zpow_lt hx.mantissa_lt hn h)
  · rw [compare_eq_iff_eq.2 rfl, mul_lt_mul_iff_left₀ (by positivity), Nat.cast_lt]
    exact compare_lt_iff_lt
  · have hm : 2 ^ 52 ≤ m := hx.normal.resolve_right (by have := hy.le_exponent; omega)
    rw [compare_gt_iff_gt.2 h]
    exact iff_of_false (by rintro ⟨⟩) (mul_zpow_lt hy.mantissa_lt hm h).not_gt

/-- Comparing finite numbers compares what they stand for. -/
theorem Finite.lt_iff {x y : Number} {a b : Bool} {m n : Nat} {q p : Int}
    (hx : Finite x a m q) (hy : Finite y b n p) :
    x < y ↔ withSign a (m * 2 ^ q) < withSign b (n * 2 ^ p) := by
  have hlt := compare_magnitudes hx hy
  have hgt := compare_magnitudes hy hx
  rw [lt_iff_compare, hx.unpack_eq, hy.unpack_eq]
  unfold Parts.unpacked withSign
  rcases Nat.eq_zero_or_pos m with rfl | hm <;> rcases Nat.eq_zero_or_pos n with rfl | hn
  · cases a <;> cases b <;> simp [unpackedSign, UnpackedFloat.compare]
  · have hpos : (0 : ℚ) < n * 2 ^ p := by positivity
    cases a <;> cases b <;> simp [unpackedSign, UnpackedFloat.compare, hn, hpos, hpos.le]
  · have hpos : (0 : ℚ) < m * 2 ^ q := by positivity
    cases a <;> cases b <;> simp [unpackedSign, UnpackedFloat.compare, hm, hpos, hpos.le]
  · have hpos : (0 : ℚ) < m * 2 ^ q := by positivity
    have hpos' : (0 : ℚ) < n * 2 ^ p := by positivity
    have hswap : ((compare q p).then (compare m n)).swap = (compare p q).then (compare n m) := by
      rw [Ordering.swap_then, ← Std.OrientedOrd.eq_swap, ← Std.OrientedOrd.eq_swap]
    cases a <;> cases b <;> simp [unpackedSign, UnpackedFloat.compare, hm, hn, hswap, hlt, hgt]
    · linarith
    · linarith

/-! Whole numbers. -/

/-- The number is a natural, up to its sign. -/
def IsWhole (x : Number) (negative : Bool) (n : Nat) : Prop :=
  ∃ m q, Finite x negative m q ∧ (m : ℚ) * 2 ^ q = n

theorem IsWhole.lt_iff {x y : Number} {a b : Bool} {m n : Nat} (hx : IsWhole x a m)
    (hy : IsWhole y b n) : x < y ↔ withSign a m < withSign b n := by
  obtain ⟨_, _, hx, hxm⟩ := hx
  obtain ⟨_, _, hy, hyn⟩ := hy
  rw [hx.lt_iff hy, hxm, hyn]

theorem IsWhole.isNaN_eq {x : Number} {negative : Bool} {n : Nat} (h : IsWhole x negative n) :
    x.isNaN = false := by
  obtain ⟨_, _, hx, -⟩ := h
  exact hx.isNaN_eq

theorem splitWhole_of_value {m n : Nat} {q : Int} (h : (m : ℚ) * 2 ^ q = n) :
    (splitWhole m q).1 = n := by
  have hmul : m * 2 ^ q.toNat = n * 2 ^ (-q).toNat := by
    rw [zpow_eq_toNat_div, mul_div_assoc', div_eq_iff (by positivity)] at h
    exact_mod_cast h
  simp only [splitWhole, hmul]
  exact Nat.mul_div_cancel _ (Nat.two_pow_pos _)

theorem IsWhole.clampNat_eq {x : Number} {negative : Bool} {n : Nat} (h : IsWhole x negative n)
    (width : Nat) : clampNat width x = if negative then 0 else min n (2 ^ width - 1) := by
  obtain ⟨m, q, hx, hn⟩ := h
  simp only [clampNat, hx.parts_eq, splitWhole_of_value hn]

theorem normal_value {n : Nat} (hn : 0 < n) (hlt : n < 2 ^ 53) :
    ((n * 2 ^ (52 - n.log2) : Nat) : ℚ) * 2 ^ ((n.log2 : Int) - 52) = n := by
  have hlog := log2_le_of_lt hn hlt
  have hexponent : ((52 - n.log2 : Nat) : Int) + ((n.log2 : Int) - 52) = 0 := by omega
  rw [Nat.cast_mul, Nat.cast_pow, Nat.cast_ofNat, ← zpow_natCast, mul_assoc,
    ← zpow_add₀ two_ne_zero, hexponent, zpow_zero, mul_one]

theorem isWhole_ofSigned (negative : Bool) {n : Nat} (hn : 0 < n) (hlt : n < 2 ^ 53) :
    IsWhole (ofSigned negative n) negative n :=
  ⟨_, _, finite_ofSigned negative hn hlt, normal_value hn hlt⟩

theorem isWhole_zero (negative : Bool) : IsWhole (ofPattern negative 0) negative 0 := by
  refine ⟨0, -1074, ⟨?_, by decide, by decide, by decide, .inr rfl⟩, by simp⟩
  cases negative <;> rfl

theorem isWhole_ofNat {n : Nat} (hlt : n < 2 ^ 53) : IsWhole (Float.ofNat n) false n := by
  rcases Nat.eq_zero_or_pos n with rfl | hn
  · exact isWhole_zero false
  · exact isWhole_ofSigned false hn hlt

/-- A natural below `2 ^ 53` is its own nearest number. -/
theorem ofScaled_zero (negative : Bool) {n : Nat} (hn : 0 < n) (hlt : n < 2 ^ 53) :
    ofScaled negative n 0 = ofSigned negative n := by
  have hnormal := normal_of_lt hn hlt
  have hpattern := patternNear_zpow hnormal.pos hnormal.lt hnormal.le_exponent (.inl hnormal.le)
  rw [normal_value hn hlt] at hpattern
  rw [← ofPattern_eq (finite_ofSigned negative hn hlt), ← hpattern]
  change ofPattern negative (nearestPattern (n * 2 ^ 0) (2 ^ 0)) = _
  rw [nearestPattern_eq _ (Nat.two_pow_pos 0)]
  simp

theorem isWhole_trunc {x : Number} {negative : Bool} {m : Nat} {q : Int}
    (h : x.parts = .finite negative m q) :
    IsWhole (trunc x) negative (splitWhole m q).1 := by
  have hfinite := finite_of_parts h
  simp only [trunc, toWhole, h]
  split
  · rename_i hq
    refine ⟨m, q, hfinite, ?_⟩
    have hscale : (-q).toNat = 0 := by omega
    simp only [splitWhole, hscale]
    rw [zpow_eq_toNat_div, hscale]
    simp
  · rename_i hq
    have hlt : (splitWhole m q).1 < 2 ^ 53 := by
      have hshift : q.toNat = 0 := by omega
      simp only [splitWhole, hshift, Nat.pow_zero, Nat.mul_one]
      exact Nat.lt_of_le_of_lt (Nat.div_le_self _ _) hfinite.mantissa_lt
    rcases Nat.eq_zero_or_pos (splitWhole m q).1 with hzero | hpos
    · rw [hzero]
      exact isWhole_zero negative
    · rw [ofScaled_zero negative hpos hlt]
      exact isWhole_ofSigned negative hpos hlt

/-! Signs. -/

/-- The unpacked number has a sign, and it is the negative one. -/
def IsNegative : UnpackedFloat → Prop
  | .zero s | .infinity s | .finite s .. => s = .negative
  | .notANumber => False

theorem toNat_packComponents (s : Sign) (e : BitVec Format.binary64.exponentBits)
    (m : BitVec Format.binary64.mantissaBitsWithoutImplicit) :
    (packComponents .binary64 s e m).toNat =
      (s.toBitVec.toNat * 2 ^ 11 + e.toNat) * 2 ^ 52 + m.toNat := by
  rw [packComponents, BitVec.toNat_append, BitVec.toNat_append,
    ← Nat.shiftLeft_add_eq_or_of_lt (BitVec.isLt _),
    ← Nat.shiftLeft_add_eq_or_of_lt (BitVec.isLt _), Nat.shiftLeft_eq, Nat.shiftLeft_eq]

theorem le_packComponents (e : BitVec Format.binary64.exponentBits)
    (m : BitVec Format.binary64.mantissaBitsWithoutImplicit) :
    2 ^ 63 ≤ (packComponents .binary64 .negative e m).toNat := by
  rw [toNat_packComponents]
  change 2 ^ 63 ≤ (1 * 2 ^ 11 + e.toNat) * 2 ^ 52 + m.toNat
  omega

theorem packComponents_lt (e : BitVec Format.binary64.exponentBits)
    (m : BitVec Format.binary64.mantissaBitsWithoutImplicit) :
    (packComponents .binary64 .positive e m).toNat < 2 ^ 63 := by
  have he : e.toNat < 2 ^ 11 := e.isLt
  have hm : m.toNat < 2 ^ 52 := m.isLt
  rw [toNat_packComponents]
  change (0 * 2 ^ 11 + e.toNat) * 2 ^ 52 + m.toNat < 2 ^ 63
  omega

theorem pack_positive_lt {m : Nat} {q : Int} (hm : 0 < m) :
    (UnpackedFloat.pack .binary64 (.finite .positive m q hm)).toNat < 2 ^ 63 := by
  rw [UnpackedFloat.pack]
  dsimp only
  split_ifs
  · exact packComponents_lt _ _
  · exact packComponents_lt _ _
  · exact packComponents_lt _ _

/-- The number of a natural has no sign. -/
theorem toBits_ofNat_lt (n : Nat) : (Float.ofNat n).toBits.toNat < 2 ^ 63 := by
  rcases Nat.eq_zero_or_pos n with rfl | hn
  · decide
  · obtain ⟨m, q, hm, heq, -⟩ := exists_pack_ofNat hn
    rw [heq]
    exact pack_positive_lt hm

theorem IsNegative.le_pack {u : UnpackedFloat} (h : IsNegative u) :
    2 ^ 63 ≤ (UnpackedFloat.pack .binary64 u).toNat := by
  cases u with
  | notANumber => cases h
  | infinity s =>
    obtain rfl : s = .negative := h
    exact le_packComponents _ _
  | zero s =>
    obtain rfl : s = .negative := h
    exact le_packComponents _ _
  | finite s m e hm =>
    obtain rfl : s = .negative := h
    rw [UnpackedFloat.pack]
    dsimp only
    split_ifs
    · exact le_packComponents _ _
    · exact le_packComponents _ _
    · exact le_packComponents _ _

/-- Whatever has the sign bit set is cut to zero. -/
theorem clampNat_of_signed {x : Number} (h : 2 ^ 63 ≤ x.toBits.toNat) (width : Nat) :
    clampNat width x = 0 := by
  simp only [clampNat, parts, decide_eq_true h]
  split <;> rename_i heq <;> split_ifs at heq <;> cases heq <;> rfl

theorem IsNegative.clampNat_eq {u : UnpackedFloat} (h : IsNegative u) (width : Nat) :
    clampNat width (.ofModel (Float.Model.pack u)) = 0 := by
  apply clampNat_of_signed
  exact h.le_pack

theorem isNegative_round (m : Nat) (e : Int) :
    IsNegative (UnpackedFloat.round .binary64 .negative m e) := by
  simp only [UnpackedFloat.round, roundWithAccuracy]
  split <;> rfl

/-! Sums and differences. -/

theorem add_eq (x y : Number) :
    x + y = .ofModel (Float.Model.pack
      (UnpackedFloat.add .binary64 x.parts.unpacked y.parts.unpacked)) := by
  rw [← unpack_eq, ← unpack_eq]
  rfl

/-- A smaller exponent makes for a wider significand. -/
theorem decreaseExponent_value (m : Nat) {e q : Int} (h : e ≤ q) :
    ((decreaseExponent m q e).1 : ℚ) * 2 ^ e = m * 2 ^ q := by
  have hq : ((q - e).toNat : Int) + e = q := by omega
  simp only [decreaseExponent, Nat.shiftLeft_eq]
  rw [Nat.cast_mul, Nat.cast_pow, Nat.cast_ofNat, mul_assoc, ← zpow_natCast,
    ← zpow_add₀ two_ne_zero, hq]

theorem pos_of_value {m n : Nat} {q : Int} (hn : 0 < n) (h : (m : ℚ) * 2 ^ q = n) : 0 < m := by
  rw [Nat.pos_iff_ne_zero]
  rintro rfl
  rw [Nat.cast_zero, zero_mul] at h
  exact hn.ne (by exact_mod_cast h)

/-- Two spellings of a magnitude, with the shift from one to the other on either side. -/
theorem mul_two_pow_of_value {m n : Nat} {q p : Int} (h : (m : ℚ) * 2 ^ q = n * 2 ^ p) :
    m * 2 ^ (q - p).toNat = n * 2 ^ (p - q).toNat := by
  have hdiv : (m : ℚ) * 2 ^ (q - p) = n := by
    rw [zpow_sub₀ two_ne_zero, mul_div_assoc', h, mul_div_cancel_right₀ _ (by positivity)]
  have hneg : (-(q - p)).toNat = (p - q).toNat := by omega
  rw [zpow_eq_toNat_div, hneg, mul_div_assoc', div_eq_iff (by positivity)] at hdiv
  exact_mod_cast hdiv

/-- A magnitude that is a natural below `2 ^ 53` is not rounded. -/
theorem round_of_value {m n : Nat} {q : Int} (hn : 0 < n) (hlt : n < 2 ^ 53)
    (h : (m : ℚ) * 2 ^ q = n) (s : Sign) :
    UnpackedFloat.round .binary64 s m q =
      .finite s (n * 2 ^ (52 - n.log2)) (n.log2 - 52) (normal_of_lt hn hlt).pos := by
  have hnormal := normal_of_lt hn hlt
  have hm := pos_of_value hn h
  have hlog : (m.log2 : Int) + q = n.log2 := by
    have hmul := mul_two_pow_of_value (h.trans (by simp : (n : ℚ) = n * 2 ^ (0 : Int)))
    have hlogs := congrArg Nat.log2 hmul
    rw [log2_mul_two_pow hm, log2_mul_two_pow hn] at hlogs
    omega
  have htarget : Format.binary64.targetExponent (totalExponent m q) = n.log2 - 52 := by
    simp only [Format.targetExponent, totalExponent, Format.mantissaBits, Format.minExponent]
    omega
  have hshift := mul_two_pow_of_value (h.trans (normal_value hn hlt).symm)
  have hexponent : q - ((q - ((n.log2 : Int) - 52)).toNat : Int) =
      (n.log2 : Int) - 52 - (((n.log2 : Int) - 52 - q).toNat : Int) := by omega
  simp only [UnpackedFloat.round, htarget, decreaseExponent, Nat.shiftLeft_eq, hshift, hexponent]
  exact hnormal.roundWithAccuracy_eq s _

/-- What comes to a natural below `2 ^ 53` is the number of the natural. -/
theorem normalize_of_value {s e : Int} {n : Nat} (hlt : n < 2 ^ 53) (h : (s : ℚ) * 2 ^ e = n) :
    Float.ofModel (Float.Model.pack (UnpackedFloat.normalize .binary64 s e .positive)) =
      Float.ofNat n := by
  have hpow : (0 : ℚ) < 2 ^ e := by positivity
  rcases Nat.eq_zero_or_pos n with rfl | hn
  · obtain rfl : s = 0 := by
      rw [Nat.cast_zero, mul_eq_zero, or_iff_left hpow.ne'] at h
      exact_mod_cast h
    rfl
  · have hs : 0 < s := by
      have hpos : 0 < (s : ℚ) * 2 ^ e := by rw [h]; exact_mod_cast hn
      exact_mod_cast (mul_pos_iff_of_pos_right hpow).1 hpos
    have hvalue : (s.toNat : ℚ) * 2 ^ e = n := by
      have hcast : ((s.toNat : Int) : ℚ) = s := by rw [Int.toNat_of_nonneg hs.le]
      rw [Int.cast_natCast] at hcast
      rw [hcast, h]
    rw [UnpackedFloat.normalize, compare_gt_iff_gt.2 hs]
    dsimp only
    rw [round_of_value hn hlt hvalue, ← ofNat_eq hn hlt]

/-- A difference of naturals below `2 ^ 53` is exact or negative. -/
theorem clampNat_normalize {s e : Int} {k n : Nat} (hk : k < 2 ^ 53)
    (h : (s : ℚ) * 2 ^ e = k - n) :
    clampNat 64 (.ofModel (Float.Model.pack (UnpackedFloat.normalize .binary64 s e .positive))) =
      k - n := by
  rcases Nat.lt_or_ge k n with hlt | hle
  · have hs : s < 0 := by
      have hpow : (0 : ℚ) < 2 ^ e := by positivity
      have hneg : (s : ℚ) * 2 ^ e < 0 := by
        rw [h, sub_neg]
        exact_mod_cast hlt
      exact_mod_cast (neg_iff_pos_of_mul_neg hneg).2 hpow
    rw [Nat.sub_eq_zero_of_le hlt.le, UnpackedFloat.normalize, compare_lt_iff_lt.2 hs]
    exact (isNegative_round _ _).clampNat_eq 64
  · have hdiff : k - n < 2 ^ 53 := by omega
    rw [normalize_of_value hdiff (by rw [h, Nat.cast_sub hle]), (isWhole_ofNat hdiff).clampNat_eq]
    simp
    omega

/-- Counting back from a natural below `2 ^ 53` ends at the difference, or at zero. -/
theorem clampNat_ofNat_add {k n : Nat} (hk : k < 2 ^ 53) {x : Number} (hx : IsWhole x true n)
    (hn : 0 < n) : clampNat 64 (Float.ofNat k + x) = k - n := by
  obtain ⟨m, q, hx, hvalue⟩ := hx
  obtain ⟨m', q', hk', hvalue'⟩ := isWhole_ofNat hk
  have hm := pos_of_value hn hvalue
  rw [add_eq, hx.parts_eq, hk'.parts_eq]
  rcases Nat.eq_zero_or_pos m' with rfl | hm'
  · obtain rfl : k = 0 := by
      rw [Nat.cast_zero, zero_mul] at hvalue'
      exact_mod_cast hvalue'.symm
    rw [Nat.zero_sub]
    simp only [Parts.unpacked, dif_pos hm, dif_neg (Nat.lt_irrefl 0)]
    have hneg : IsNegative (.finite .negative m q hm) := rfl
    exact hneg.clampNat_eq 64
  · simp only [Parts.unpacked, dif_pos hm, dif_pos hm', UnpackedFloat.add, unpackedSign]
    apply clampNat_normalize hk
    have hleft := decreaseExponent_value m' (Int.min_le_left q' q)
    have hright := decreaseExponent_value m (Int.min_le_right q' q)
    rw [hvalue'] at hleft
    rw [hvalue] at hright
    simp only [Sign.apply]
    push_cast
    rw [← hleft, ← hright]
    ring

/-- A finite number that is a natural below `2 ^ 53` is packed as the number of the natural. -/
theorem Finite.pack_eq {x : Number} {negative : Bool} {m n : Nat} {q : Int}
    (h : Finite x negative m q) (hm : 0 < m) (hlt : n < 2 ^ 53) (hvalue : (m : ℚ) * 2 ^ q = n) :
    Float.ofModel (Float.Model.pack (.finite .positive m q hm)) = Float.ofNat n := by
  have hn : 0 < n := by
    have hpos : (0 : ℚ) < m * 2 ^ q := by positivity
    rw [hvalue] at hpos
    exact_mod_cast hpos
  have hmul := mul_two_pow_of_value (hvalue.trans (by simp : (n : ℚ) = n * 2 ^ (0 : Int)))
  rw [Int.sub_zero, Int.zero_sub] at hmul
  obtain ⟨rfl, rfl⟩ := parts_of_mul h.mantissa_lt h.normal hn hlt hmul
  exact (ofNat_eq hn hlt).symm

/-- A sum that is a natural below `2 ^ 53` is exact. -/
theorem ofNat_add_eq {k n m : Nat} (hk : k < 2 ^ 53) {x : Number} {negative : Bool}
    (hx : IsWhole x negative n) (hm : m < 2 ^ 53) (hsum : (k : ℚ) + withSign negative n = m) :
    Float.ofNat k + x = Float.ofNat m := by
  have hzero : withSign negative 0 = 0 := by cases negative <;> simp [withSign]
  obtain ⟨p, q, hx, hvalue⟩ := hx
  obtain ⟨p', q', hk, hvalue'⟩ := isWhole_ofNat hk
  rw [add_eq, hx.parts_eq, hk.parts_eq]
  rw [← hvalue, ← hvalue'] at hsum
  -- zeros are added by rules of their own
  rcases Nat.eq_zero_or_pos p' with rfl | hp' <;> rcases Nat.eq_zero_or_pos p with rfl | hp
  · obtain rfl : m = 0 := by
      rw [Nat.cast_zero, zero_mul, zero_mul, hzero, add_zero] at hsum
      exact_mod_cast hsum.symm
    cases negative <;> rfl
  · rw [Nat.cast_zero, zero_mul, zero_add] at hsum
    cases negative with
    | true =>
      have hpos : (0 : ℚ) < p * 2 ^ q := by positivity
      have hneg : -((p : ℚ) * 2 ^ q) = m := hsum
      linarith [(Nat.cast_nonneg m : (0 : ℚ) ≤ m)]
    | false =>
      simp only [Parts.unpacked, dif_pos hp, dif_neg (Nat.lt_irrefl 0)]
      exact hx.pack_eq hp hm hsum
  · rw [Nat.cast_zero, zero_mul, hzero, add_zero] at hsum
    simp only [Parts.unpacked, dif_pos hp', dif_neg (Nat.lt_irrefl 0)]
    exact hk.pack_eq hp' hm hsum
  · simp only [Parts.unpacked, dif_pos hp, dif_pos hp', UnpackedFloat.add]
    apply normalize_of_value hm
    have hleft := decreaseExponent_value p' (Int.min_le_left q' q)
    have hright := decreaseExponent_value p (Int.min_le_right q' q)
    rw [← hsum, ← hleft, ← hright]
    cases negative <;> simp [unpackedSign, Sign.apply, withSign] <;> ring

theorem ofNat_add_ofNat {k n : Nat} (hlt : k + n < 2 ^ 53) :
    Float.ofNat k + Float.ofNat n = Float.ofNat (k + n) :=
  ofNat_add_eq (by omega) (isWhole_ofNat (by omega)) hlt (by simp [withSign])

theorem mul_eq (x y : Number) :
    x * y = .ofModel (Float.Model.pack
      (UnpackedFloat.mul .binary64 x.parts.unpacked y.parts.unpacked)) := by
  rw [← unpack_eq, ← unpack_eq]
  rfl

theorem isWhole_neg_one_mul {n : Nat} (hlt : n < 2 ^ 53) :
    IsWhole (-1 * Float.ofNat n) true n := by
  rcases Nat.eq_zero_or_pos n with rfl | hn
  · exact isWhole_zero true
  · have hone : Finite (-1) true (2 ^ 52) (-52) := @finite_ofSigned true 1 (by decide) (by decide)
    have hnormal := normal_of_lt hn hlt
    have hround := hnormal.roundWithAccuracy_eq .negative 52
    have hexponent : (n.log2 : Int) - 52 - (52 : Nat) = -52 + (n.log2 - 52) := by omega
    rw [Nat.mul_comm _ (2 ^ 52), hexponent] at hround
    have hproduct : -1 * Float.ofNat n = ofSigned true n := by
      rw [mul_eq, hone.parts_eq, show Float.ofNat n = ofSigned false n from rfl,
        (finite_ofSigned false hn hlt).parts_eq]
      simp only [Parts.unpacked, dif_pos hnormal.pos, dif_pos (Nat.two_pow_pos 52)]
      rw [ofSigned, if_pos rfl, ofNat_eq hn hlt, neg_eq hnormal, ← hround]
      rfl
    rw [hproduct]
    exact isWhole_ofSigned true hn hlt

theorem ofNat_add_neg_one_mul {k n : Nat} (hle : n ≤ k) (hk : k < 2 ^ 53) :
    Float.ofNat k + -1 * Float.ofNat n = Float.ofNat (k - n) := by
  refine ofNat_add_eq hk (isWhole_neg_one_mul (by omega)) (by omega) ?_
  rw [Nat.cast_sub hle, withSign, if_pos rfl, sub_eq_add_neg]

theorem isNaN_eq_unpacked (x : Number) : x.isNaN = x.parts.unpacked.isNaN := by
  rw [← unpack_eq]
  rfl

/-- Cutting to a natural sends everything below zero to zero already. -/
theorem clampNat_greater_zero (x : Number) (width : Nat) :
    clampNat width (greater x 0) = clampNat width x := by
  have hzero : clampNat width 0 = 0 := by
    rw [show (0 : Number) = Float.ofNat 0 from rfl, (isWhole_ofNat (by decide)).clampNat_eq]
    simp
  have hcases : greater x 0 = x ∨ greater x 0 = 0 ∧ (x.isNaN = true ∨ x < 0) := by
    unfold greater
    split_ifs <;> simp_all
  rcases hcases with h | ⟨h, hbelow⟩
  · rw [h]
  · rw [h, hzero]
    rw [isNaN_eq_unpacked, lt_iff_compare, unpack_eq,
      show (0 : Number).toModel.unpack = .zero .positive from rfl] at hbelow
    unfold clampNat
    rcases hparts : x.parts with _ | negative | ⟨negative, m, q⟩
    · rfl
    · cases negative with
      | true => rfl
      | false =>
        simp [hparts, Parts.unpacked, unpackedSign, UnpackedFloat.isNaN,
          UnpackedFloat.compare] at hbelow
    · cases negative with
      | true => rfl
      | false =>
        by_cases hm : 0 < m <;>
          simp [hparts, hm, Parts.unpacked, unpackedSign, UnpackedFloat.isNaN,
            UnpackedFloat.compare] at hbelow

end Lisplet.Number
