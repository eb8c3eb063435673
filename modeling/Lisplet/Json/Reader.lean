import Lisplet.Json.Basic

/-!
Reading JSON. A fault is placed by how many bytes of the text are still unread: either behind
everything consumed so far, or one byte further, on the byte that was only looked at. Lines and
columns follow from that, columns counted in bytes.

A number is its first digits, as many as fit in 64 bits, scaled by a power of ten in floating point.
-/

namespace Lisplet.Json

inductive Flaw
  | endInList
  | endInObject
  | endInText
  | endInValue
  | expectedColon
  | expectedListEnd
  | expectedObjectEnd
  | expectedWord
  | expectedValue
  | badEscape
  | badNumber
  | outOfRange
  | controlCharacter
  | keyNotText
  | loneSurrogate
  | unfinishedSurrogate
  | trailingComma
  | trailingText
  | tooDeep
  deriving Repr, DecidableEq

def Flaw.message : Flaw → String
  | endInList => "EOF while parsing a list"
  | endInObject => "EOF while parsing an object"
  | endInText => "EOF while parsing a string"
  | endInValue => "EOF while parsing a value"
  | expectedColon => "expected `:`"
  | expectedListEnd => "expected `,` or `]`"
  | expectedObjectEnd => "expected `,` or `\x7d`"
  | expectedWord => "expected ident"
  | expectedValue => "expected value"
  | badEscape => "invalid escape"
  | badNumber => "invalid number"
  | outOfRange => "number out of range"
  | controlCharacter => "control character (\\u0000-\\u001F) found while parsing a string"
  | keyNotText => "key must be a string"
  | loneSurrogate => "lone leading surrogate in hex escape"
  | unfinishedSurrogate => "unexpected end of hex escape"
  | trailingComma => "trailing comma"
  | trailingText => "trailing characters"
  | tooDeep => "recursion limit exceeded"

/-- A flaw and the number of bytes behind it. -/
structure Fault where
  flaw : Flaw
  bytesLeft : Nat
  deriving Repr, DecidableEq

def byteCount (cs : List Char) : Nat := cs.foldl (fun n c => n + c.utf8Size) 0

/-- Faults in front of `rest`, with everything before it consumed. -/
def failBefore {α : Type} (flaw : Flaw) (rest : List Char) : Except Fault α :=
  .error ⟨flaw, byteCount rest⟩

/-- Faults at the first byte of `rest`, or at the end if there is none. -/
def failAt {α : Type} (flaw : Flaw) (rest : List Char) : Except Fault α :=
  .error ⟨flaw, byteCount rest - 1⟩

def isSpace (c : Char) : Bool := c = ' ' || c = '\n' || c = '\t' || c = '\r'

def skipSpace (cs : List Char) : List Char := cs.dropWhile isSpace

/-- The rest of a word whose first letter was recognised. -/
def readWord (j : Json) : (word : List Char) → List Char → Except Fault (Json × List Char)
  | [], cs => .ok (j, cs)
  | _ :: _, [] => failBefore .endInValue []
  | w :: word, c :: cs => if c = w then readWord j word cs else failAt .expectedWord (c :: cs)

def hexValue? (c : Char) : Option Nat :=
  if c.isDigit then some (c.toNat - '0'.toNat)
  else if 'a' ≤ c ∧ c ≤ 'f' then some (c.toNat - 'a'.toNat + 10)
  else if 'A' ≤ c ∧ c ≤ 'F' then some (c.toNat - 'A'.toNat + 10)
  else none

def readHex (cs : List Char) : Except Fault (Nat × List Char) :=
  match (cs.take 4).map hexValue? with
  | [some a, some b, some c, some d] => .ok (((a * 16 + b) * 16 + c) * 16 + d, cs.drop 4)
  | _ =>
    if byteCount cs < 4 then failBefore .endInText [] else .error ⟨.badEscape, byteCount cs - 4⟩

def isLeading (n : Nat) : Bool := 0xd800 ≤ n && n ≤ 0xdbff

def isTrailing (n : Nat) : Bool := 0xdc00 ≤ n && n ≤ 0xdfff

def readMark (mark : Char) : List Char → Except Fault (List Char)
  | [] => failBefore .endInText []
  | c :: cs => if c = mark then .ok cs else failAt .unfinishedSurrogate (c :: cs)

/-- The character of a numeric escape; one beyond the first plane is written as two. -/
def readUnit (cs : List Char) : Except Fault (Char × List Char) := do
  let (n, cs) ← readHex cs
  if isTrailing n then failBefore .loneSurrogate cs
  else if isLeading n then do
    let cs ← readMark '\\' cs
    let cs ← readMark 'u' cs
    let (n', cs) ← readHex cs
    if isTrailing n' then .ok (Char.ofNat ((n - 0xd800) * 0x400 + (n' - 0xdc00) + 0x10000), cs)
    else failBefore .loneSurrogate cs
  else .ok (Char.ofNat n, cs)

def simpleEscape? : Char → Option Char
  | '"' => some '"'
  | '\\' => some '\\'
  | '/' => some '/'
  | 'b' => some '\x08'
  | 'f' => some '\x0c'
  | 'n' => some '\n'
  | 'r' => some '\r'
  | 't' => some '\t'
  | _ => none

/-- The characters up to the closing quote. Each step consumes a character, so the length of the
whole text is fuel enough, here and below. -/
def readText : (fuel : Nat) → List Char → Except Fault (List Char × List Char)
  | _, [] => failBefore .endInText []
  | 0, cs => failBefore .endInText cs
  | fuel + 1, c :: cs =>
    if c = '"' then .ok ([], cs)
    else if c = '\\' then
      match cs with
      | [] => failBefore .endInText []
      | e :: rest =>
        if e = 'u' then do
          let (u, rest) ← readUnit rest
          let (us, rest) ← readText fuel rest
          .ok (u :: us, rest)
        else
          match simpleEscape? e with
          | some u => do
            let (us, rest) ← readText fuel rest
            .ok (u :: us, rest)
          | none => failAt .badEscape (e :: rest)
    else if c.toNat < 0x20 then failAt .controlCharacter (c :: cs)
    else do
      let (us, rest) ← readText fuel cs
      .ok (c :: us, rest)

def digitValue (c : Char) : Nat := c.toNat - '0'.toNat

/-- The digits that `n` can take on without passing a limit, and what is left. -/
def takeDigits (limit : Nat) : (n : Nat) → List Char → Nat × Nat × List Char
  | n, [] => (n, 0, [])
  | n, c :: cs =>
    if c.isDigit && n * 10 + digitValue c ≤ limit then
      let (n', count, rest) := takeDigits limit (n * 10 + digitValue c) cs
      (n', count + 1, rest)
    else (n, 0, c :: cs)

def maxWord : Nat := 2 ^ 64 - 1

/-- Divides by `10 ^ 308` until the power left over is in range. -/
def scaleDown : (fuel : Nat) → Number → Nat → Number
  | 0, x, n => x / Decimal.toNumber false ⟨1, n⟩
  | fuel + 1, x, n =>
    if n ≤ 308 then x / Decimal.toNumber false ⟨1, n⟩
    else if x == 0 then x
    else scaleDown fuel (x / 1e308) (n - 308)

/-- `significand · 10 ^ exponent`, refused if that is infinite. -/
def scale (significand : Nat) (exponent : Int) : Option Number :=
  let x := Float.ofNat significand
  if exponent < 0 then some (scaleDown 4 x (-exponent).toNat)
  else if 308 < exponent then if x == 0 then some x else none
  else
    let y := x * Decimal.toNumber false ⟨1, exponent⟩
    if y.isInf then none else some y

def signedNumber (negative : Bool) (x : Number) : Json := number (if negative then -x else x)

def finishNumber (negative : Bool) (significand : Nat) (exponent : Int) (rest : List Char) :
    Except Fault (Json × List Char) :=
  match scale significand exponent with
  | some x => .ok (signedNumber negative x, rest)
  | none => failBefore .outOfRange rest

def maxExponent : Nat := 2 ^ 31 - 1

/-- What follows the exponent mark. Too large an exponent is refused at the digit that makes it so,
unless the value is zero anyhow. -/
def readExponent (negative : Bool) (significand : Nat) (start : Int) (cs : List Char) :
    Except Fault (Json × List Char) :=
  let (down, cs) := match cs with
    | '+' :: cs => (false, cs)
    | '-' :: cs => (true, cs)
    | cs => (false, cs)
  match cs with
  | [] => failBefore .endInValue []
  | c :: rest =>
    if c.isDigit then
      let (e, _, after) := takeDigits maxExponent (digitValue c) rest
      match after with
      | d :: more =>
        if d.isDigit then
          if significand ≠ 0 ∧ !down then failBefore .outOfRange more
          else .ok (signedNumber negative 0, more.dropWhile Char.isDigit)
        else finishNumber negative significand (if down then start - e else start + e) after
      | [] => finishNumber negative significand (if down then start - e else start + e) []
    else failAt .badNumber (c :: rest)

def isExponentMark (c : Char) : Bool := c = 'e' || c = 'E'

def readTail (negative : Bool) (significand : Nat) (exponent : Int) :
    List Char → Except Fault (Json × List Char)
  | c :: cs =>
    if isExponentMark c then readExponent negative significand exponent cs
    else finishNumber negative significand exponent (c :: cs)
  | [] => finishNumber negative significand exponent []

def startsWithDigit (cs : List Char) : Bool := cs.head?.any Char.isDigit

def readFraction (negative : Bool) (significand : Nat) (exponent : Int) (cs : List Char) :
    Except Fault (Json × List Char) :=
  if startsWithDigit cs then
    let (n, count, rest) := takeDigits maxWord significand cs
    readTail negative n (exponent - count) (rest.dropWhile Char.isDigit)
  else if cs.isEmpty then failAt .endInValue cs
  else failAt .badNumber cs

/-- What follows the integer digits, of which `dropped` had no room. -/
def readScaled (negative : Bool) (n dropped : Nat) : List Char → Except Fault (Json × List Char)
  | '.' :: cs => readFraction negative n dropped cs
  | c :: cs =>
    if isExponentMark c then readExponent negative n dropped cs
    else if dropped = 0 then .ok (signedNumber negative (Float.ofNat n), c :: cs)
    else finishNumber negative n dropped (c :: cs)
  | [] =>
    if dropped = 0 then .ok (signedNumber negative (Float.ofNat n), [])
    else finishNumber negative n dropped []

/-- The number whose digits start a text; a sign has been consumed. -/
def readNumber (negative : Bool) : List Char → Except Fault (Json × List Char)
  | [] => failBefore .endInValue []
  | c :: cs =>
    if c = '0' ∧ startsWithDigit cs then failAt .badNumber cs
    else if c.isDigit then
      let (n, _, rest) := takeDigits maxWord (digitValue c) cs
      readScaled negative n (rest.takeWhile Char.isDigit).length (rest.dropWhile Char.isDigit)
    else failAt .badNumber (c :: cs)

/-- Whether another element follows, and where it starts. -/
def nextItem (first : Bool) (cs : List Char) : Except Fault (Bool × List Char) :=
  match skipSpace cs with
  | [] => failAt .endInList []
  | c :: cs =>
    if c = ']' then .ok (false, cs)
    else if first then .ok (true, c :: cs)
    else if c = ',' then
      match skipSpace cs with
      | [] => failAt .endInValue []
      | d :: rest => if d = ']' then failAt .trailingComma (d :: rest) else .ok (true, d :: rest)
    else failAt .expectedListEnd (c :: cs)

/-- Whether another member follows, and where its name starts behind the quote. -/
def nextMember (first : Bool) (cs : List Char) : Except Fault (Bool × List Char) :=
  match skipSpace cs with
  | [] => failAt .endInObject []
  | c :: cs =>
    if c = '\x7d' then .ok (false, cs)
    else if first then
      if c = '"' then .ok (true, cs) else failAt .keyNotText (c :: cs)
    else if c = ',' then
      match skipSpace cs with
      | [] => failAt .endInValue []
      | d :: rest =>
        if d = '"' then .ok (true, rest)
        else if d = '\x7d' then failAt .trailingComma (d :: rest)
        else failAt .keyNotText (d :: rest)
    else failAt .expectedObjectEnd (c :: cs)

def readColon (cs : List Char) : Except Fault (List Char) :=
  match skipSpace cs with
  | [] => failAt .endInObject []
  | c :: cs => if c = ':' then .ok cs else failAt .expectedColon (c :: cs)

def readItems (value : List Char → Except Fault (Json × List Char)) :
    (fuel : Nat) → (first : Bool) → List Char → Except Fault (List Json × List Char)
  | 0, _, cs => failAt .endInList cs
  | fuel + 1, first, cs => do
    let (more, cs) ← nextItem first cs
    if more then do
      let (j, cs) ← value cs
      let (js, cs) ← readItems value fuel false cs
      .ok (j :: js, cs)
    else .ok ([], cs)

/-- The members behind the opening bracket, on top of those read so far. -/
def readMembers (value : List Char → Except Fault (Json × List Char)) :
    (fuel : Nat) → (first : Bool) → List (String × Json) → List Char →
      Except Fault (List (String × Json) × List Char)
  | 0, _, _, cs => failAt .endInObject cs
  | fuel + 1, first, members, cs => do
    let (more, cs) ← nextMember first cs
    if more then do
      let (name, cs) ← readText (fuel + 1) cs
      let cs ← readColon cs
      let (j, cs) ← value cs
      readMembers value fuel false (setMember members (String.ofList name) j) cs
    else .ok (members, cs)

/-- The value at the start of a text, inside which `room` brackets may be open at once. -/
def readValue (fuel : Nat) : (room : Nat) → List Char → Except Fault (Json × List Char)
  | room, cs =>
    match skipSpace cs with
    | [] => failAt .endInValue []
    | c :: cs =>
      if c = 'n' then readWord .null "ull".toList cs
      else if c = 't' then readWord (.bool true) "rue".toList cs
      else if c = 'f' then readWord (.bool false) "alse".toList cs
      else if c = '-' then readNumber true cs
      else if c.isDigit then readNumber false (c :: cs)
      else if c = '"' then do
        let (s, cs) ← readText fuel cs
        .ok (.text (String.ofList s), cs)
      else if c = '[' then
        match room with
        | 0 => failAt .tooDeep (c :: cs)
        | room + 1 => do
          let (js, cs) ← readItems (readValue fuel room) fuel true cs
          .ok (.array js, cs)
      else if c = '\x7b' then
        match room with
        | 0 => failAt .tooDeep (c :: cs)
        | room + 1 => do
          let (members, cs) ← readMembers (readValue fuel room) fuel true [] cs
          .ok (.object members, cs)
      else failAt .expectedValue (c :: cs)

def maxDepth : Nat := 127

def read (cs : List Char) : Except Fault Json := do
  let (j, cs) ← readValue cs.length maxDepth cs
  match skipSpace cs with
  | [] => .ok j
  | rest => failAt .trailingText rest

/-- Line and column `bytes` bytes into a text. -/
def place : (bytes : Nat) → (line column : Nat) → List Char → Nat × Nat
  | 0, line, column, _ => (line, column)
  | _, line, column, [] => (line, column)
  | bytes + 1, line, column, c :: cs =>
    if c = '\n' then place bytes (line + 1) 0 cs
    else place (bytes + 1 - c.utf8Size) line (column + min c.utf8Size (bytes + 1)) cs

def Fault.message (fault : Fault) (cs : List Char) : String :=
  let (line, column) := place (byteCount cs - fault.bytesLeft) 1 0 cs
  fault.flaw.message ++ " at line " ++ line.repr ++ " column " ++ column.repr

end Lisplet.Json
