import Lisplet.Number.Literal
import Lisplet.Source.Position
import Lisplet.Source.Token
import Lisplet.Text.Blank

/-!
From characters to tokens. A source text is a sequence of lexemes with gaps between them; a gap is
made of blanks, commas and comments that run from a semicolon to the end of the line.

Every scan splits the text in front of it into the lexeme and the rest, also when it fails, so the
place of a token is the place behind all text before it and the place of a fault the place behind
the text consumed so far.
-/

namespace Lisplet

inductive LexFault
  | quoteAtEnd
  | quoteBefore (c : Char)
  | openText
  | openEscape
  | badEscape (c : Char)
  | badNumber (text : List Char)
  /-- No token starts with the character that comes next. -/
  | stray
  deriving Repr, DecidableEq

namespace LexFault

def message : LexFault → String
  | quoteAtEnd => "Unexpected end of input after '"
  | quoteBefore c => "Expected '(' after ', found '" ++ String.singleton c ++ "'"
  | openText => "Unterminated string"
  | openEscape => "Unterminated string escape"
  | badEscape c => "Unknown escape sequence: \\" ++ String.singleton c
  | badNumber text => "Invalid number: " ++ String.ofList text
  | stray => "Unexpected character"

/-- The text ended inside a token, so more text may complete it. -/
def isIncomplete : LexFault → Bool
  | quoteAtEnd | openText | openEscape => true
  | _ => false

end LexFault

namespace Lexeme

structure Scan (α : Type) where
  outcome : Except LexFault α
  lexeme : List Char
  rest : List Char

def isDelimiter (c : Char) : Bool :=
  c = '(' || c = ')' || c = '[' || c = ']' || c = '\x7b' || c = '\x7d'

def isTerminator (c : Char) : Bool :=
  Text.isBlank c || c = ',' || c = ';' || c = '"' || c = '\'' || isDelimiter c

/-- The gap at the start of a text and what follows it, from inside a comment or outside one. -/
def splitGap : (inComment : Bool) → List Char → List Char × List Char
  | _, [] => ([], [])
  | true, c :: cs =>
    let (gap, rest) := splitGap (c != '\n') cs
    (c :: gap, rest)
  | false, c :: cs =>
    if Text.isBlank c || c = ',' || c = ';' then
      let (gap, rest) := splitGap (c == ';') cs
      (c :: gap, rest)
    else ([], c :: cs)

def Scan.extend {α : Type} (before : List Char) (f : α → α) (s : Scan α) : Scan α :=
  ⟨s.outcome.map f, before ++ s.lexeme, s.rest⟩

def scanText : List Char → Scan (List Char)
  | [] => ⟨.error .openText, [], []⟩
  | '"' :: cs => ⟨.ok [], ['"'], cs⟩
  | ['\\'] => ⟨.error .openEscape, ['\\'], []⟩
  | '\\' :: c :: cs =>
    match Text.unescape? c with
    | some u => (scanText cs).extend ['\\', c] (u :: ·)
    | none => ⟨.error (.badEscape c), ['\\', c], cs⟩
  | c :: cs => (scanText cs).extend [c] (c :: ·)

abbrev Split := List Char → List Char × List Char

def splitWhile (p : Char → Bool) : Split := fun cs => (cs.takeWhile p, cs.dropWhile p)

def Split.andThen (f g : Split) : Split := fun cs =>
  let (first, cs) := f cs
  let (second, cs) := g cs
  (first ++ second, cs)

/-- A part that starts with a character of a class, and nothing if the text does not. -/
def Split.marked (p : Char → Bool) (f : Split) : Split
  | c :: cs =>
    if p c then
      let (part, rest) := f cs
      (c :: part, rest)
    else ([], c :: cs)
  | [] => ([], [])

def isSign (c : Char) : Bool := c = '-' || c = '+'

/-- Digits, possibly none, behind an optional sign. -/
def splitSigned : Split :=
  Split.andThen (Split.marked isSign ([], ·)) (splitWhile Char.isDigit)

/-- The longest start of a text that has the shape of a number: a sign, digits, a point with more
digits, an exponent mark with a sign and digits, where only the digits' presence is left open. -/
def splitNumeral : Split :=
  splitSigned.andThen ((Split.marked (· = '.') (splitWhile Char.isDigit)).andThen
    (Split.marked (fun c => c = 'e' || c = 'E') splitSigned))

/-- The value of a numeral that `rest` follows. A numeral that runs into other text is refused
first, showing the character it runs into. -/
def readNumeral (numeral rest : List Char) : Except LexFault Token :=
  match rest.head?.filter (!isTerminator ·), Number.readChars? numeral with
  | some c, _ => .error (.badNumber (numeral ++ [c]))
  | none, some x => .ok (.atom (.number x))
  | none, none => .error (.badNumber numeral)

def scanNumber (cs : List Char) : Scan Token :=
  let (numeral, rest) := splitNumeral cs
  ⟨readNumeral numeral rest, numeral, rest⟩

/-- The token of a word: three words are atoms, every other one is a symbol. -/
def ofWord (word : String) : Token :=
  if word = "nil" then .atom .nil
  else if word = "true" then .atom (.bool true)
  else if word = "false" then .atom (.bool false)
  else .symbol word

def readWord (word : List Char) : Except LexFault Token :=
  if word.isEmpty then .error .stray else .ok (ofWord (String.ofList word))

def scanWord (cs : List Char) : Scan Token :=
  let (word, rest) := splitWhile (!isTerminator ·) cs
  ⟨readWord word, word, rest⟩

def startsNumber : List Char → Bool
  | c :: cs => c.isDigit || isSign c && (cs.head?.any Char.isDigit)
  | [] => false

def bracket? : Char → Option Token
  | '(' => some (.opening .round)
  | ')' => some (.closing .round)
  | '[' => some (.opening .square)
  | ']' => some (.closing .square)
  | '\x7b' => some (.opening .curly)
  | '\x7d' => some (.closing .curly)
  | _ => none

/-- Scans the token whose first character is `c`; no gap stands before it. -/
def scan (c : Char) (cs : List Char) : Scan Token :=
  match bracket? c with
  | some t => ⟨.ok t, [c], cs⟩
  | none =>
    if c = '\'' then
      match cs with
      | '(' :: rest => ⟨.ok .quoting, ['\'', '('], rest⟩
      | d :: rest => ⟨.error (.quoteBefore d), ['\''], d :: rest⟩
      | [] => ⟨.error .quoteAtEnd, ['\''], []⟩
    else if c = '"' then
      let s := (scanText cs).extend ['"'] id
      ⟨s.outcome.map fun t => .atom (.text (String.ofList t)), s.lexeme, s.rest⟩
    else if startsNumber (c :: cs) then scanNumber (c :: cs)
    else scanWord (c :: cs)

end Lexeme

inductive Tokens
  | done (place : Position)
  | fault (cause : LexFault) (place : Position)
  | next (token : Token) (place : Position) (rest : Tokens)

namespace Tokens

/-- Every step uses up at least one character, so a fuel of the text's length reaches the end. -/
def ofChars : (fuel : Nat) → Position → List Char → Tokens
  | fuel, p, cs =>
    let (gap, cs) := Lexeme.splitGap false cs
    let p := p.past gap
    match fuel, cs with
    | fuel + 1, c :: cs =>
      let s := Lexeme.scan c cs
      match s.outcome with
      | .ok t => .next t p (ofChars fuel (p.past s.lexeme) s.rest)
      | .error e => .fault e (p.past s.lexeme)
    | _, _ => .done p

def ofString (s : String) : Tokens := ofChars s.toList.length .start s.toList

end Tokens

end Lisplet
