import Lisplet.Source.Form
import Lisplet.Source.Tokens

/-!
From tokens to forms, one token at a time. The state of a reading is the stack of brackets still
open, each with what it holds so far; a token opens a bracket, closes one, or adds an atom or a
symbol to the innermost.

A form counts as read only when the token behind it is known to be sound: a fault directly after a
form takes the form with it.
-/

namespace Lisplet

inductive ReadFault
  | lex (cause : LexFault)
  | unexpected (b : Bracket)
  | unexpectedEnd
  | unclosed (b : Bracket)
  | oddTable
  | badKey (token : Token)
  | tooDeep

def maxNesting : Nat := 512

namespace ReadFault

def message : ReadFault → String
  | lex cause => cause.message
  | unexpected b => "Unexpected '" ++ b.closeText ++ "'"
  | unexpectedEnd => "Unexpected end of input"
  | unclosed b => "Expected '" ++ b.closeText ++ "' before end of input"
  | oddTable => "Hash literal must contain an even number of forms"
  | badKey token => "Hash keys must be atoms, found '" ++ token.text ++ "'"
  | tooDeep => "Forms nested deeper than " ++ maxNesting.repr ++ " levels"

/-- The text ended before its forms did, so more text may complete them. -/
def isIncomplete : ReadFault → Bool
  | lex cause => cause.isIncomplete
  | unexpectedEnd | unclosed _ => true
  | _ => false

end ReadFault

structure ReadError where
  fault : ReadFault
  location : Location

def ReadError.message (e : ReadError) : String :=
  e.fault.message ++ " (" ++ e.location.text ++ ")"

namespace Reading

/-- A bracket that waits for a form, with what it holds so far, latest first. -/
inductive Frame
  | call (items : List Form) (location : Location)
  | quoted (items : List Form) (location : Location)
  | vector (items : List Form)
  | entry (entries : List (Atom × Form)) (key : Atom)

/-- What is due next: a form, or in a table a key. -/
inductive State
  | form (outer : List Frame)
  | key (entries : List (Atom × Form)) (outer : List Frame)

inductive Step
  | more (state : State)
  | done (form : Form)

/-- Puts a finished form into the innermost open bracket. -/
def place (form : Form) : List Frame → Step
  | [] => .done form
  | .call items l :: outer => .more (.form (.call (form :: items) l :: outer))
  | .quoted items l :: outer => .more (.form (.quoted (form :: items) l :: outer))
  | .vector items :: outer => .more (.form (.vector (form :: items) :: outer))
  | .entry entries key :: outer => .more (.key ((key, form) :: entries) outer)

def Frame.endFault : Frame → ReadFault
  | call .. | quoted .. => .unclosed .round
  | vector _ => .unclosed .square
  | entry .. => .unexpectedEnd

def enter (outer : List Frame) (state : State) : Except ReadFault Step :=
  if maxNesting ≤ outer.length then .error .tooDeep else .ok (.more state)

def close (b : Bracket) : List Frame → Except ReadFault Step
  | .call items l :: outer =>
    if b = .round then .ok (place (.call items.reverse l) outer) else .error (.unexpected b)
  | .quoted items l :: outer =>
    if b = .round then .ok (place (.quoted items.reverse l) outer) else .error (.unexpected b)
  | .vector items :: outer =>
    if b = .square then .ok (place (.vector items.reverse) outer) else .error (.unexpected b)
  | .entry .. :: _ => .error (if b = .curly then .oddTable else .unexpected b)
  | [] => .error (.unexpected b)

def step (l : Location) : State → Token → Except ReadFault Step
  | .form outer, .opening .round => enter outer (.form (.call [] l :: outer))
  | .form outer, .opening .square => enter outer (.form (.vector [] :: outer))
  | .form outer, .opening .curly => enter outer (.key [] outer)
  | .form outer, .quoting => enter outer (.form (.quoted [] l :: outer))
  | .form outer, .atom a => .ok (place (.atom a) outer)
  | .form outer, .symbol name => .ok (place (.symbol name) outer)
  | .form outer, .closing b => close b outer
  | .key entries outer, .closing .curly => .ok (place (.table entries.reverse) outer)
  | .key entries outer, .atom a => .ok (.more (.form (.entry entries a :: outer)))
  | .key entries outer, .symbol name => .ok (.more (.form (.entry entries (.text name) :: outer)))
  | .key .., token => .error (.badKey token)

/-- How a reading that reaches the end of the tokens ends: well only between forms. -/
def State.atEnd : State → Option ReadFault
  | form [] => none
  | form (frame :: _) => some frame.endFault
  | key .. => some (.unclosed .curly)

/-- All forms up to the end or the first fault. -/
def forms (file : String) : State → Tokens → List Form × Option ReadError
  | state, .done p => ([], state.atEnd.map (⟨·, file, p⟩))
  | _, .fault cause p => ([], some ⟨.lex cause, file, p⟩)
  | state, .next token p rest =>
    match step ⟨file, p⟩ state token with
    | .error fault => ([], some ⟨fault, file, p⟩)
    | .ok (.more state) => forms file state rest
    | .ok (.done form) =>
      match rest with
      | .fault cause p => ([], some ⟨.lex cause, file, p⟩)
      | rest =>
        let (more, e) := forms file (.form []) rest
        (form :: more, e)

end Reading

/-- The forms that can be read from the start of a source text, and what stopped the reading. -/
def readForms (file source : String) : List Form × Option ReadError :=
  Reading.forms file (.form []) (.ofString source)

def parse (file source : String) : Except ReadError (List Form) :=
  match readForms file source with
  | (forms, none) => .ok forms
  | (_, some e) => .error e

end Lisplet
