import Lisplet.Number.Basic

/-!
Whole numbers: rounding to one, the remainder of a truncated division, and reading a number as a
natural or an integer.
-/

namespace Lisplet.Number

/-- A finite magnitude `m · 2 ^ q` split into its whole part and whether anything is left over. -/
def splitWhole (m : Nat) (q : Int) : Nat × Bool :=
  let scale := 2 ^ (-q).toNat
  (m * 2 ^ q.toNat / scale, m % scale != 0)

/-- Rounds a number to a whole one by a rule on its sign, whole part and remainder. A whole part of
zero keeps the sign. -/
def toWhole (rule : Bool → Nat → Bool → Nat) (x : Number) : Number :=
  match x.parts with
  | .finite negative m q =>
    if 0 ≤ q then x
    else
      let (whole, rest) := splitWhole m q
      ofScaled negative (rule negative whole rest) 0
  | _ => x

def trunc : Number → Number := toWhole fun _ whole _ => whole

def floor : Number → Number :=
  toWhole fun negative whole rest => if negative && rest then whole + 1 else whole

def ceil : Number → Number :=
  toWhole fun negative whole rest => if !negative && rest then whole + 1 else whole

/-- Halves go up: the floor of `x + 1/2`. -/
def round (x : Number) : Number := floor (x + 0.5)

/-- The largest finite magnitude range in which every whole number is exact. -/
def maxSafe : Nat := 2 ^ 53 - 1

/-- Nothing is left after the binary point. Infinities and NaN are not integral. -/
def isIntegral (x : Number) : Bool :=
  match x.parts with
  | .finite _ m q => !(splitWhole m q).2
  | _ => false

def toInt? (x : Number) : Option Int :=
  match x.parts with
  | .finite negative m q =>
    let whole := (splitWhole m q).1
    some (if negative then -whole else whole)
  | _ => none

/-- The number cut to a natural below `2 ^ width`: truncated, clamped at both ends, NaN as zero. -/
def clampNat (width : Nat) (x : Number) : Nat :=
  match x.parts with
  | .nan => 0
  | .infinite negative => if negative then 0 else 2 ^ width - 1
  | .finite negative m q => if negative then 0 else min (splitWhole m q).1 (2 ^ width - 1)

def lesser (x y : Number) : Number :=
  if x.isNaN then y else if y.isNaN then x else if y < x then y else x

def greater (x y : Number) : Number :=
  if x.isNaN then y else if y.isNaN then x else if x < y then y else x

/-- What is left of `x` after taking away `y` a whole number of times, toward zero. It has the sign
of `x` and is exact. -/
def rem (x y : Number) : Number :=
  match x.parts, y.parts with
  | .finite negative m q, .finite _ n r =>
    if n = 0 then nan
    else
      let low := min q r
      ofScaled negative (m * 2 ^ (q - low).toNat % (n * 2 ^ (r - low).toNat)) low
  | .finite .., .infinite _ => x
  | _, _ => nan

def sign (x : Number) : Number :=
  if x.isNaN then x else if x.isSigned then -1 else 1

end Lisplet.Number
