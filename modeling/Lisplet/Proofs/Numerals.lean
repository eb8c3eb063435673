import Lisplet.Number.Literal
import Lisplet.Number.Notation
import Lisplet.Proofs.Rounding

/-!
The text of a number reads back as the number. The shortest decimal of a finite number rounds to it,
and positional notation spells a decimal of the same value; only the sign of a zero is lost.
-/

namespace Lisplet

open Number

namespace Decimal

theorem toNumber_eq (d : Decimal) (negative : Bool) :
    d.toNumber negative = ofPattern negative (patternNear d.value) := by
  unfold toNumber ofPattern
  rw [pattern_eq]

theorem search_pattern {tie : Tie} {num den target : Nat} {magnitude : Int} {count used : Nat}
    {d : Decimal} (h : search tie num den target magnitude count used = some d) :
    d.pattern = target := by
  induction count generalizing used with
  | zero => cases h
  | succ count ih =>
    unfold search at h
    split at h
    · rename_i found hfound
      cases h
      simpa using List.find?_some hfound
    · exact ih h

theorem dropZeros_value (fuel : Nat) (d : Decimal) : (dropZeros fuel d).value = d.value := by
  induction fuel generalizing d with
  | zero => rfl
  | succ fuel ih =>
    unfold dropZeros
    split
    · rename_i hd
      rw [ih]
      have hten : ((d.digits / 10 : Nat) : ℚ) * 10 = d.digits := by
        exact_mod_cast Nat.div_mul_cancel (Nat.dvd_of_mod_eq_zero hd.2)
      simp only [value]
      rw [zpow_add_one₀ (by norm_num), ← hten]
      ring
    · rfl

theorem shortest_toNumber {x : Number} {negative : Bool} {m : Nat} {q : Int}
    (h : Finite x negative m q) (hm : m ≠ 0) (tie : Tie) :
    (shortest tie m q).toNumber negative = x := by
  have hvalue : ((m * 2 ^ q.toNat : Nat) : ℚ) / ((2 ^ (-q).toNat : Nat) : ℚ) = m * 2 ^ q := by
    rw [zpow_eq_toNat_div]
    push_cast
    ring
  have htarget : ofPattern negative (patternNear (m * 2 ^ q)) = x := by
    rw [patternNear_zpow (Nat.pos_of_ne_zero hm) h.mantissa_lt h.le_exponent h.normal]
    exact ofPattern_eq h
  have hkeep : ∀ d : Decimal, (trim d).toNumber negative = d.toNumber negative := fun d => by
    rw [toNumber_eq, trim, dropZeros_value, ← toNumber_eq]
  unfold shortest
  rw [if_neg hm]
  simp only [hkeep]
  cases hs : search tie (m * 2 ^ q.toNat) (2 ^ (-q).toNat)
      (nearestPattern (m * 2 ^ q.toNat) (2 ^ (-q).toNat))
      (magnitude (m * 2 ^ q.toNat) (2 ^ (-q).toNat)) 17 1 with
  | some d =>
    rw [Option.getD_some, toNumber, search_pattern hs, nearestPattern_eq _ (by positivity), hvalue]
    exact htarget
  | none =>
    rw [Option.getD_none, toNumber_eq, ← htarget, ← hvalue]
    congr 2
    have hmin : min q 0 = -((-q).toNat : Int) := by omega
    have hten : (10 : ℚ) = 2 * 5 := by norm_num
    rw [value, hmin, zpow_neg, zpow_natCast, hten, mul_pow]
    push_cast
    field_simp

end Decimal

namespace Number

/-- Digits with an optional point among them, at least one in front. -/
structure Numeral where
  whole : List Char
  fraction : List Char
  whole_ne : whole ≠ []
  digits : ∀ c ∈ whole ++ fraction, c.isDigit = true

namespace Numeral

def chars (n : Numeral) : List Char :=
  if n.fraction = [] then n.whole else n.whole ++ '.' :: n.fraction

def decimal (n : Numeral) : Decimal := ⟨digitsValue (n.whole ++ n.fraction), -n.fraction.length⟩

end Numeral

theorem digitsValue_append (ds es : List Char) :
    digitsValue (ds ++ es) = 10 ^ es.length * digitsValue ds + digitsValue es := by
  unfold digitsValue
  rw [Nat.ofDigitChars_append, Nat.ofDigitChars_eq_ofDigitChars_zero]

theorem digitsValue_zeros (n : Nat) : digitsValue (List.replicate n '0') = 0 := by
  simp [digitsValue, Nat.ofDigitChars_replicate_zero]

theorem isDigit_of_mem_zeros {n : Nat} {c : Char} (h : c ∈ List.replicate n '0') :
    c.isDigit = true := by
  rw [List.eq_of_mem_replicate h]
  rfl

end Number

namespace Decimal

theorem digitsValue_digitChars (d : Decimal) : digitsValue d.digitChars = d.digits :=
  Nat.ofDigitChars_toDigits (by decide) (by decide)

theorem isDigit_of_mem_digitChars {d : Decimal} {c : Char} (h : c ∈ d.digitChars) :
    c.isDigit = true :=
  Nat.isDigit_of_mem_toDigits (by decide) (by decide) h

/-- The text is a numeral of the value of the decimal. -/
def SpelledBy (d : Decimal) (n : Numeral) (cs : List Char) : Prop :=
  cs = n.chars ∧ n.decimal.value = d.value

/-! The three cases of positional notation: zeros behind the digits, a point among them, and zeros
in front. -/

theorem exists_numeral_of_nonneg {d : Decimal} (hexp : 0 ≤ d.exponent) :
    ∃ n, d.SpelledBy n (d.digitChars ++ List.replicate d.exponent.toNat '0') := by
  refine ⟨⟨d.digitChars ++ List.replicate d.exponent.toNat '0', [], ?_, ?_⟩, ?_, ?_⟩
  · simp [digitChars, Nat.toDigits_ne_nil]
  · intro c hc
    rw [List.append_nil, List.mem_append] at hc
    exact hc.elim isDigit_of_mem_digitChars isDigit_of_mem_zeros
  · simp [Numeral.chars]
  · have hpow : (10 : ℚ) ^ d.exponent = 10 ^ d.exponent.toNat := by
      rw [← zpow_natCast, Int.toNat_of_nonneg hexp]
    simp only [Numeral.decimal, value, List.append_nil, digitsValue_append, digitsValue_zeros,
      digitsValue_digitChars, List.length_replicate, hpow]
    simp [mul_comm]

theorem exists_numeral_of_point {d : Decimal} {point : Nat} (hpoint : 0 < point)
    (hexp : d.exponent < 0) (h : d.digitChars.length + d.exponent = point) :
    ∃ n, d.SpelledBy n (d.digitChars.take point ++ '.' :: d.digitChars.drop point) := by
  have hsplit := List.take_append_drop point d.digitChars
  have hlength : -((d.digitChars.drop point).length : Int) = d.exponent := by
    rw [List.length_drop]
    omega
  have hfraction : d.digitChars.drop point ≠ [] := by
    intro hnil
    simp only [hnil, List.length_nil] at hlength
    omega
  refine ⟨⟨d.digitChars.take point, d.digitChars.drop point, ?_, ?_⟩, ?_, ?_⟩
  · rw [ne_eq, ← List.length_eq_zero_iff, List.length_take]
    omega
  · rw [hsplit]
    exact fun c => isDigit_of_mem_digitChars
  · rw [Numeral.chars, if_neg hfraction]
  · simp only [Numeral.decimal, hsplit, digitsValue_digitChars, hlength]

theorem exists_numeral_of_zeros {d : Decimal} {zeros : Nat}
    (h : d.digitChars.length + d.exponent = -zeros) :
    ∃ n, d.SpelledBy n ('0' :: '.' :: (List.replicate zeros '0' ++ d.digitChars)) := by
  have hzeros : digitsValue ('0' :: List.replicate zeros '0') = 0 := digitsValue_zeros (zeros + 1)
  have hlength : -((List.replicate zeros '0' ++ d.digitChars).length : Int) = d.exponent := by
    rw [List.length_append, List.length_replicate]
    omega
  refine ⟨⟨['0'], List.replicate zeros '0' ++ d.digitChars, by simp, ?_⟩, ?_, ?_⟩
  · intro c hc
    rw [← List.append_assoc, List.mem_append] at hc
    exact hc.elim (isDigit_of_mem_zeros (n := zeros + 1)) isDigit_of_mem_digitChars
  · simp [Numeral.chars, digitChars, Nat.toDigits_ne_nil]
  · simp only [Numeral.decimal, ← List.append_assoc, List.singleton_append, digitsValue_append,
      hzeros, digitsValue_digitChars, hlength]
    simp

theorem exists_numeral (d : Decimal) : ∃ n, d.SpelledBy n d.positional := by
  unfold positional
  dsimp only
  split_ifs with hexp hpoint
  · exact exists_numeral_of_nonneg hexp
  · exact exists_numeral_of_point (by omega) (by omega) (by omega)
  · exact exists_numeral_of_zeros (by omega)

end Decimal

namespace Number

theorem span_of_all {p : Char → Bool} {ds rest : List Char} (hds : ∀ c ∈ ds, p c = true)
    (hrest : ∀ c ∈ rest.head?, p c = false) :
    (ds ++ rest).takeWhile p = ds ∧ (ds ++ rest).dropWhile p = rest := by
  rw [List.takeWhile_append_of_pos hds, List.dropWhile_append_of_pos hds]
  cases rest with
  | nil => simp
  | cons c rest => simp [hrest c rfl]

namespace Numeral

variable (n : Numeral)

theorem isDigit_whole : ∀ c ∈ n.whole, c.isDigit = true :=
  fun c hc => n.digits c (List.mem_append_left _ hc)

theorem isDigit_fraction : ∀ c ∈ n.fraction, c.isDigit = true :=
  fun c hc => n.digits c (List.mem_append_right _ hc)

theorem chars_head : ∃ c cs, n.chars = c :: cs ∧ c.isDigit = true := by
  obtain ⟨c, cs, hcs⟩ := List.exists_cons_of_ne_nil n.whole_ne
  have hc := n.isDigit_whole c (by simp [hcs])
  unfold chars
  split <;> simp [hcs, hc]

theorem splitMantissa_chars : splitMantissa n.chars = (n.whole, n.fraction, []) := by
  unfold chars splitMantissa
  split
  · rename_i hf
    have hspan := @span_of_all _ _ [] n.isDigit_whole (by simp)
    rw [List.append_nil] at hspan
    simp [hspan, hf]
  · have hspan := @span_of_all _ _ ('.' :: n.fraction) n.isDigit_whole (by simp)
    have hfraction := @span_of_all _ _ [] n.isDigit_fraction (by simp)
    rw [List.append_nil] at hfraction
    simp [hspan, hfraction]

theorem splitSign_signed (negative : Bool) :
    splitSign (signed negative n.chars) = (negative, n.chars) := by
  cases negative with
  | true => rfl
  | false =>
    obtain ⟨c, cs, hcs, hc⟩ := n.chars_head
    simp only [signed, hcs]
    unfold splitSign
    split
    · simp_all
    · simp_all
    · rfl

theorem readChars?_signed (negative : Bool) :
    readChars? (signed negative n.chars) = some (n.decimal.toNumber negative) := by
  unfold readChars?
  rw [splitSign_signed]
  simp [splitMantissa_chars, n.whole_ne, readExponent?, decimal]

def zero : Numeral := ⟨['0'], [], by simp, by simp⟩

theorem zero_toNumber (negative : Bool) :
    zero.decimal.toNumber negative = ofPattern negative 0 := by
  have hdigits : zero.decimal.digits = 0 := rfl
  rw [Decimal.toNumber, Decimal.pattern, if_pos hdigits]

end Numeral

/-- The text of a finite number is a numeral, which reads back as the number up to the sign of a
zero. -/
theorem text_eq {x : Number} (h : x.isFinite = true) :
    ∃ (negative : Bool) (n : Numeral), x.text.toList = signed negative n.chars ∧
      (n.decimal.toNumber negative == x) = true := by
  unfold isFinite at h
  split at h
  · rename_i negative m q hparts
    have hx := finite_of_parts hparts
    simp only [text, Style.text, Style.chars, hparts, String.toList_ofList]
    split
    · rename_i hm
      subst hm
      refine ⟨false, Numeral.zero, by simp [display, Numeral.zero, Numeral.chars], ?_⟩
      rw [Numeral.zero_toNumber, ← ofPattern_zero hx]
      exact zero_beq negative
    · rename_i hm
      obtain ⟨n, hn, hvalue⟩ := (Decimal.shortest display.tie m q).exists_numeral
      refine ⟨negative, n, by rw [hn], ?_⟩
      rw [Decimal.toNumber_congr hvalue, Decimal.shortest_toNumber hx hm]
      exact hx.beq_self
  · cases h

end Number

end Lisplet
