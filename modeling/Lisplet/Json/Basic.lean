import Lisplet.Number.Integral
import Lisplet.Number.Notation

/-!
JSON documents and their compact text.
-/

namespace Lisplet

inductive Json
  | null
  | bool (b : Bool)
  | number (x : Number)
  | text (s : String)
  | array (items : List Json)
  | object (members : List (String × Json))

namespace Json

def hexDigit (n : Nat) : Char := Nat.digitChar n

/-- Quotes, backslashes and control characters are escaped, and nothing else. -/
def escapeChar (c : Char) : List Char :=
  if c = '"' then ['\\', '"']
  else if c = '\\' then ['\\', '\\']
  else if c.toNat = 0x8 then ['\\', 'b']
  else if c.toNat = 0x9 then ['\\', 't']
  else if c.toNat = 0xa then ['\\', 'n']
  else if c.toNat = 0xc then ['\\', 'f']
  else if c.toNat = 0xd then ['\\', 'r']
  else if c.toNat < 0x20 then
    ['\\', 'u', '0', '0', hexDigit (c.toNat / 16), hexDigit (c.toNat % 16)]
  else [c]

def writeText (s : String) (rest : List Char) : List Char :=
  '"' :: (s.toList.flatMap escapeChar ++ '"' :: rest)

/-- Scientific notation with a sign in the exponent and no padding. -/
def scientific (ds : List Char) (exponent : Int) : List Char :=
  let mantissa := match ds with
    | d :: e :: rest => d :: '.' :: e :: rest
    | ds => ds
  let sign := if exponent < 0 then '-' else '+'
  mantissa ++ 'e' :: sign :: Nat.toDigits 10 exponent.natAbs

/-- A magnitude in the shortest digits that read back, an even last digit deciding a tie: positional
from `10 ^ -5` up to `10 ^ 16`, always with a point, and scientific outside. -/
def magnitudeChars (m : Nat) (q : Int) : List Char :=
  let d := Decimal.shortest .toEven m q
  let exponent := d.digitChars.length + d.exponent - 1
  if -5 ≤ exponent ∧ exponent ≤ 15 then
    if 0 ≤ d.exponent then d.positional ++ ['.', '0'] else d.positional
  else scientific d.digitChars exponent

/-- Integers that every reader keeps exact are written as such. -/
def numberChars (x : Number) : List Char :=
  match x.parts, x.toInt? with
  | .finite negative m q, some n =>
    if x.isIntegral ∧ n.natAbs ≤ Number.maxSafe then
      Number.signed (n < 0) (Nat.toDigits 10 n.natAbs)
    else Number.signed negative (magnitudeChars m q)
  | _, _ => "null".toList

mutual

def write : Json → (rest : List Char) → List Char
  | null, rest => "null".toList ++ rest
  | bool b, rest => (if b then "true" else "false").toList ++ rest
  | number x, rest => numberChars x ++ rest
  | text s, rest => writeText s rest
  | array [], rest => '[' :: ']' :: rest
  | array (j :: js), rest => '[' :: j.write (writeItems js (']' :: rest))
  | object [], rest => '\x7b' :: '\x7d' :: rest
  | object ((key, j) :: members), rest =>
    '\x7b' :: writeText key (':' :: j.write (writeMembers members ('\x7d' :: rest)))

def writeItems : List Json → (rest : List Char) → List Char
  | [], rest => rest
  | j :: js, rest => ',' :: j.write (writeItems js rest)

def writeMembers : List (String × Json) → (rest : List Char) → List Char
  | [], rest => rest
  | (key, j) :: members, rest =>
    ',' :: writeText key (':' :: j.write (writeMembers members rest))

end

def render (j : Json) : String := String.ofList (j.write [])

end Json

/-- Sets a member: a name that is there keeps its place and takes the new value. -/
def Json.setMember : List (String × Json) → String → Json → List (String × Json)
  | [], name, j => [(name, j)]
  | (n, i) :: members, name, j =>
    if n = name then (n, j) :: members else (n, i) :: setMember members name j

end Lisplet
