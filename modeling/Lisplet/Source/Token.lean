import Lisplet.Number.Notation
import Lisplet.Text.Quoted

/-!
Atoms, the values that a source text can spell out in one word, and the tokens that a source text
is made of.
-/

namespace Lisplet

inductive Atom
  | nil
  | bool (b : Bool)
  | number (x : Number)
  | text (s : String)

namespace Atom

def ofBool (b : Bool) : String := if b then "true" else "false"

/-- The atom as it is written in a source text. -/
def render : Atom → String
  | nil => "nil"
  | bool b => ofBool b
  | number x => x.text
  | text s => Text.quote s

end Atom

inductive Bracket
  | round
  | square
  | curly
  deriving Repr, DecidableEq

inductive Token
  | opening (b : Bracket)
  | closing (b : Bracket)
  /-- A quote mark together with the round bracket it opens. -/
  | quoting
  | atom (a : Atom)
  | symbol (name : String)

def Bracket.openText : Bracket → String
  | round => "("
  | square => "["
  | curly => "\x7b"

def Bracket.closeText : Bracket → String
  | round => ")"
  | square => "]"
  | curly => "\x7d"

/-- The token as messages show it: texts are not escaped, and a zero keeps its sign. -/
def Token.text : Token → String
  | opening b => b.openText
  | closing b => b.closeText
  | quoting => "'("
  | atom (.number x) => Number.quoted.text x
  | atom (.text s) => "\"" ++ s ++ "\""
  | atom a => a.render
  | symbol name => name

end Lisplet
