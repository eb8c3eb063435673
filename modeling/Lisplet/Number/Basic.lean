/-!
Numbers are IEEE binary64. A finite number is `± m · 2 ^ q` for naturals `m` and integers `q`, and
`parts` reads that off its bits; everything the language does with a number beyond the four
arithmetic operations is defined on these parts in exact integer arithmetic.

The nonnegative numbers are the bit patterns below `2 ^ 63` in increasing order: the pattern of
`m · 2 ^ q` is `(q + 1074) · 2 ^ 52 + m`, so rounding a carry up lands on the right neighbour.
-/

namespace Lisplet

-- Powers of naturals are the core ones, also where a library in scope has powers of its own.
attribute [instance(high), default_instance(high+1)] instPowNat

abbrev Number := Float

namespace Number

inductive Parts
  | nan
  | infinite (negative : Bool)
  | finite (negative : Bool) (m : Nat) (q : Int)
  deriving Repr, DecidableEq

def parts (x : Number) : Parts :=
  let bits := x.toBits.toNat
  let negative := decide (2 ^ 63 ≤ bits)
  let exponent : Nat := bits / 2 ^ 52 % 2 ^ 11
  let fraction := bits % 2 ^ 52
  if exponent = 2047 then
    if fraction = 0 then .infinite negative else .nan
  else if exponent = 0 then .finite negative fraction (-1074)
  else .finite negative (fraction + 2 ^ 52) ((exponent : Int) - 1075)

/-- The pattern of positive infinity; no finite number has a larger one. -/
def infinityPattern : Nat := 2047 * 2 ^ 52

/-- The number of a sign and a magnitude pattern; a pattern past the largest finite one is infinity.
-/
def ofPattern (negative : Bool) (pattern : Nat) : Number :=
  Float.ofBits ((if negative then 2 ^ 63 else 0) + min pattern infinityPattern).toUInt64

def infinity : Number := ofPattern false infinityPattern

def negInfinity : Number := ofPattern true infinityPattern

def nan : Number := Float.ofBits 0x7ff8000000000000

/-- `num / den` rounded to an integer, a half going to the even neighbour. -/
def roundDiv (num den : Nat) : Nat :=
  let floor := num / den
  let twice := 2 * (num % den)
  if twice < den then floor
  else if den < twice then floor + 1
  else floor + floor % 2

/-- The exponent `e` with `2 ^ e ≤ num / den < 2 ^ (e + 1)`, for positive `num` and `den`. -/
def binaryExponent (num den : Nat) : Int :=
  let e : Int := num.log2 - den.log2
  if den * 2 ^ e.toNat ≤ num * 2 ^ (-e).toNat then e else e - 1

/-- The pattern of the number nearest to `num / den`, ties to even. -/
def nearestPattern (num den : Nat) : Nat :=
  if num = 0 then 0
  else
    let q := max (binaryExponent num den - 52) (-1074)
    (q + 1074).toNat * 2 ^ 52 + roundDiv (num * 2 ^ (-q).toNat) (den * 2 ^ q.toNat)

def nearest (negative : Bool) (num den : Nat) : Number :=
  ofPattern negative (nearestPattern num den)

/-- The number `± m · 2 ^ q`, exact whenever it is representable. -/
def ofScaled (negative : Bool) (m : Nat) (q : Int) : Number :=
  nearest negative (m * 2 ^ q.toNat) (2 ^ (-q).toNat)

def isFinite (x : Number) : Bool :=
  match x.parts with
  | .finite .. => true
  | _ => false

/-- The sign bit is set, as it is for `-0`. -/
def isSigned (x : Number) : Bool :=
  decide (2 ^ 63 ≤ x.toBits.toNat)

end Number

end Lisplet
