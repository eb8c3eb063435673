import Lisplet.Number.Basic

/-!
Decimals `digits · 10 ^ exponent` and the two directions between them and numbers: the number
nearest to a decimal, and the shortest decimal that reads back as a given number.
-/

namespace Lisplet

structure Decimal where
  digits : Nat
  exponent : Int
  deriving Repr, DecidableEq

namespace Decimal

/-- The pattern of the number nearest to a decimal. Past `10 ^ 400` that is infinity and below
`10 ^ -400` zero, so neither end raises ten to a large power. -/
def pattern (d : Decimal) : Nat :=
  if d.digits = 0 then 0
  else if 400 < d.exponent then Number.infinityPattern
  else if d.exponent < -(400 + d.digits.log2) then 0
  else Number.nearestPattern (d.digits * 10 ^ d.exponent.toNat) (10 ^ (-d.exponent).toNat)

def toNumber (negative : Bool) (d : Decimal) : Number :=
  Number.ofPattern negative d.pattern

inductive Tie
  | up
  | toEven
  deriving DecidableEq

/-- The first `k` from a start on with `num / den < 10 ^ k`. -/
def magnitudeFrom (num den : Nat) : Nat → Int → Int
  | 0, k => k
  | fuel + 1, k =>
    if num * 10 ^ (-k).toNat < den * 10 ^ k.toNat then k else magnitudeFrom num den fuel (k + 1)

/-- The exponent `k` with `10 ^ (k - 1) ≤ num / den < 10 ^ k`. The start is `log₁₀ 2 ≈ 1233 / 4096`
times the binary exponent, at most two below. -/
def magnitude (num den : Nat) : Int :=
  magnitudeFrom num den 4 (Number.binaryExponent num den * 1233 / 4096)

def candidates (tie : Tie) (num den : Nat) (exponent : Int) : List Decimal :=
  let n := num * 10 ^ (-exponent).toNat
  let d := den * 10 ^ exponent.toNat
  let floor := n / d
  let twice := 2 * (n % d)
  let below : Decimal := ⟨floor, exponent⟩
  let above : Decimal := ⟨floor + 1, exponent⟩
  let belowFirst := decide (twice < d) || (twice == d && tie == .toEven && floor % 2 == 0)
  if belowFirst then [below, above] else [above, below]

/-- The first decimal with at most `count` digits, starting from `used` digits, whose nearest number
has the given pattern. -/
def search (tie : Tie) (num den target : Nat) (magnitude : Int) : Nat → Nat → Option Decimal
  | 0, _ => none
  | count + 1, used =>
    match (candidates tie num den (magnitude - used)).find? fun d => d.pattern == target with
    | some d => some d
    | none => search tie num den target magnitude count (used + 1)

/-- The same decimal without trailing zeros, as far as the fuel goes. -/
def dropZeros : Nat → Decimal → Decimal
  | 0, d => d
  | fuel + 1, d =>
    if d.digits ≠ 0 ∧ d.digits % 10 = 0 then dropZeros fuel ⟨d.digits / 10, d.exponent + 1⟩ else d

def trim (d : Decimal) : Decimal := dropZeros (d.digits.log2 + 1) d

/-- The shortest decimal that reads back as the number `m · 2 ^ q`, the nearest of several.
Seventeen digits always suffice; the exact expansion stands behind them. -/
def shortest (tie : Tie) (m : Nat) (q : Int) : Decimal :=
  if m = 0 then ⟨0, 0⟩
  else
    let num := m * 2 ^ q.toNat
    let den := 2 ^ (-q).toNat
    let exact : Decimal := ⟨num * 5 ^ (-q).toNat, min q 0⟩
    trim ((search tie num den (Number.nearestPattern num den) (magnitude num den) 17 1).getD exact)

end Decimal

end Lisplet
