import Lisplet.Source.Position
import Lisplet.Source.Token

/-!
Forms, what a source text says. Calls and quoted lists know where they start; the keys of a table
are atoms.
-/

namespace Lisplet

inductive Form
  | atom (a : Atom)
  | symbol (name : String)
  /-- `(f x y)`, a call. -/
  | call (items : List Form) (location : Location)
  /-- `'(x y)`, a list of the values of its items. -/
  | quoted (items : List Form) (location : Location)
  /-- `[x y]`, also a list of the values of its items. -/
  | vector (items : List Form)
  | table (entries : List (Atom × Form))

namespace Form

/-- What kind of form this is, in the words of messages. -/
def kind : Form → String
  | atom (.text _) => "string"
  | atom (.number _) => "number"
  | atom (.bool _) => "boolean"
  | atom .nil => "literal"
  | symbol _ => "identifier"
  | call .. => "list"
  | quoted .. => "quoted list"
  | vector _ => "vector"
  | table _ => "hash"

def location? : Form → Option Location
  | call _ l | quoted _ l => some l
  | _ => none

mutual

/-- The form as source text on one line. -/
def render : Form → String
  | atom a => a.render
  | symbol name => name
  | call items _ => "(" ++ " ".intercalate (renderItems items) ++ ")"
  | quoted items _ => "'(" ++ " ".intercalate (renderItems items) ++ ")"
  | vector items => "[" ++ " ".intercalate (renderItems items) ++ "]"
  | table entries => "\x7b" ++ " ".intercalate (renderEntries entries) ++ "\x7d"

def renderItems : List Form → List String
  | [] => []
  | form :: forms => form.render :: renderItems forms

def renderEntries : List (Atom × Form) → List String
  | [] => []
  | (key, form) :: entries => key.render :: form.render :: renderEntries entries

end

end Form

end Lisplet
