import Lisplet.Number.Literal
import Lisplet.Value.Function

/-!
Values. Tables are mutable and shared, so a value only names one; the contents stand in the heap.

There are three equalities. `same` is strict: lists by their items, tables and functions by
identity. `sameKey` adds that NaN is itself. `loose` also compares numbers with texts and booleans
by their numeric value.
-/

namespace Lisplet

abbrev TableId := Nat

inductive Value
  | nil
  | bool (b : Bool)
  | number (x : Number)
  | text (s : String)
  | list (items : List Value)
  | table (id : TableId)
  | function (f : Function)

/-- The kinds of values that the language tells apart. -/
inductive Kind
  | nil
  | bool
  | number
  | text
  | list
  | table
  | function
  deriving Repr, DecidableEq

def Kind.name : Kind → String
  | nil => "Nil"
  | bool => "Boolean"
  | number => "Number"
  | text => "String"
  | list => "Array"
  | table => "Hash"
  | function => "Function"

namespace Value

instance : Inhabited Value := ⟨nil⟩

def kind : Value → Kind
  | nil => .nil
  | bool _ => .bool
  | number _ => .number
  | text _ => .text
  | list _ => .list
  | table _ => .table
  | function _ => .function

def ofAtom : Atom → Value
  | .nil => nil
  | .bool b => bool b
  | .number x => number x
  | .text s => text s

def ofNat (n : Nat) : Value := number (Float.ofNat n)

def ofChar (c : Char) : Value := text (String.singleton c)

/-- The list of the one-character texts of a text. -/
def charsOf (s : String) : List Value := s.toList.map ofChar

/-- Nil, false, zero, NaN and the empty text count as false. -/
def isTruthy : Value → Bool
  | nil => false
  | bool b => b
  | number x => !(x == 0) && !x.isNaN
  | text s => s != ""
  | list _ | table _ | function _ => true

mutual

def same : Value → Value → Bool
  | nil, nil => true
  | bool a, bool b => a == b
  | number a, number b => a == b
  | text a, text b => a == b
  | list as, list bs => sameAll as bs
  | table a, table b => a == b
  | function f, function g => f.same g
  | _, _ => false

def sameAll : List Value → List Value → Bool
  | [], [] => true
  | a :: as, b :: bs => same a b && sameAll as bs
  | _, _ => false

end

/-- The equality of table keys. -/
def sameKey : Value → Value → Bool
  | number a, number b => a == b || a.isNaN && b.isNaN
  | a, b => same a b

def ofBool (b : Bool) : Number := if b then 1 else 0

/-- Loose equality between values of which neither is nil or a boolean. -/
def looseNumeric : Value → Value → Bool
  | number a, text s | text s, number a => a == Number.ofText s
  | a, b => same a b

/-- Nil equals only itself, and a boolean equals another kind of value if one or zero does. -/
def loose : Value → Value → Bool
  | nil, nil => true
  | nil, _ | _, nil => false
  | bool a, bool b => a == b
  | bool a, b | b, bool a => looseNumeric (number (ofBool a)) b
  | a, b => looseNumeric a b

end Value

end Lisplet
