import Lisplet.Number.Decimal
import Lisplet.Text.Blank

/-!
Decimal literals: an optional sign, digits with an optional point among them, and an optional
exponent. At least one digit stands before the exponent and, if there is one, at least one in it.
The value is the number nearest to the decimal; too large a literal is infinite.
-/

namespace Lisplet.Number

def digitsValue (ds : List Char) : Nat := Nat.ofDigitChars 10 ds 0

def splitSign : List Char → Bool × List Char
  | '-' :: cs => (true, cs)
  | '+' :: cs => (false, cs)
  | cs => (false, cs)

/-- The digits before and after an optional point, and what follows them. -/
def splitMantissa (cs : List Char) : List Char × List Char × List Char :=
  let whole := cs.takeWhile Char.isDigit
  match cs.dropWhile Char.isDigit with
  | '.' :: rest => (whole, rest.takeWhile Char.isDigit, rest.dropWhile Char.isDigit)
  | rest => (whole, [], rest)

/-- The exponent that the end of a literal states, all of which must belong to it. -/
def readExponent? : List Char → Option Int
  | [] => some 0
  | c :: cs =>
    let (negative, ds) := splitSign cs
    if (c = 'e' ∨ c = 'E') ∧ ds ≠ [] ∧ ds.all Char.isDigit then
      some (if negative then -(digitsValue ds) else digitsValue ds)
    else none

def readChars? (cs : List Char) : Option Number := do
  let (negative, cs) := splitSign cs
  let (whole, fraction, rest) := splitMantissa cs
  guard (whole ≠ [] ∨ fraction ≠ [])
  let exponent ← readExponent? rest
  return Decimal.toNumber negative ⟨digitsValue (whole ++ fraction), exponent - fraction.length⟩

def read? (s : String) : Option Number := readChars? s.toList

def infinityWord? (s : String) : Option Number :=
  if s = "Infinity" ∨ s = "+Infinity" then some infinity
  else if s = "-Infinity" then some negInfinity
  else none

/-- The number that a whole text stands for: blank is zero, and a text that is no literal is NaN. -/
def ofText (s : String) : Number :=
  let s := Text.trim s
  if s = "" then 0
  else ((infinityWord? s).orElse fun _ => read? s).getD nan

def isNumeric (c : Char) : Bool :=
  c.isDigit || c = '.' || c = 'e' || c = 'E' || c = '+' || c = '-'

def longestLiteral? (cs : List Char) : Nat → Option Number
  | 0 => none
  | n + 1 => (readChars? (cs.take (n + 1))).orElse fun _ => longestLiteral? cs n

/-- The number at the start of a text, behind blanks; NaN if there is none. -/
def ofTextStart (s : String) : Number :=
  let cs := Text.trimLeft s.toList
  if "Infinity".toList.isPrefixOf cs || "+Infinity".toList.isPrefixOf cs then infinity
  else if "-Infinity".toList.isPrefixOf cs then negInfinity
  else
    let run := cs.takeWhile isNumeric
    (longestLiteral? run run.length).getD nan

end Lisplet.Number
