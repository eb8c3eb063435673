import Lisplet.Number.Decimal

/-!
Text of numbers. Every notation writes the shortest digits that read back; a `Style` fixes the
spelling of what is not a nonzero finite number and which way a tie between two shortest decimals
goes. `fixed` writes a given number of places of the exact value instead.
-/

namespace Lisplet

def Decimal.digitChars (d : Decimal) : List Char := Nat.toDigits 10 d.digits

/-- Positional notation: zeros fill up to the decimal point on either side. -/
def Decimal.positional (d : Decimal) : List Char :=
  let ds := d.digitChars
  let point := ds.length + d.exponent
  if 0 ≤ d.exponent then ds ++ List.replicate d.exponent.toNat '0'
  else if 0 < point then ds.take point.toNat ++ '.' :: ds.drop point.toNat
  else '0' :: '.' :: (List.replicate (-point).toNat '0' ++ ds)

namespace Number

structure Style where
  tie : Decimal.Tie
  nan : String
  infinity : String
  signedZero : Bool

/-- How the language prints its numbers: zero has no sign. -/
def display : Style := ⟨.up, "NaN", "Infinity", false⟩

/-- How a number is quoted back from the source text: the sign of a zero shows. -/
def quoted : Style := ⟨.up, "NaN", "inf", true⟩

def signed (negative : Bool) (cs : List Char) : List Char :=
  if negative then '-' :: cs else cs

def Style.chars (style : Style) (x : Number) : List Char :=
  match x.parts with
  | .nan => style.nan.toList
  | .infinite negative => signed negative style.infinity.toList
  | .finite negative m q =>
    if m = 0 then signed (negative && style.signedZero) ['0']
    else signed negative (Decimal.shortest style.tie m q).positional

def Style.text (style : Style) (x : Number) : String := String.ofList (style.chars x)

/-- The text of a number in the language. -/
def text (x : Number) : String := display.text x

/-- `places` digits after the point, the exact value rounded with halves to even. The sign bit
shows, also on a zero. -/
def fixed (places : Nat) (x : Number) : String :=
  match x.parts with
  | .nan => quoted.nan
  | .infinite negative => String.ofList (signed negative quoted.infinity.toList)
  | .finite negative m q =>
    let scaled := roundDiv (m * 2 ^ q.toNat * 10 ^ places) (2 ^ (-q).toNat)
    let ds := Nat.toDigits 10 scaled
    let ds := List.replicate (places + 1 - ds.length) '0' ++ ds
    let whole := ds.take (ds.length - places)
    let rest := ds.drop (ds.length - places)
    String.ofList (signed negative (if places = 0 then whole else whole ++ '.' :: rest))

end Number

end Lisplet
