import Lisplet.Number.Integral
import Lisplet.Session
import Lisplet.Value.Display

/-!
The primitives: arithmetic, comparison, sequences, tables and printing.
-/

namespace Lisplet.Primitive

def arity : Primitive → Arity
  | add | mul | div => .atLeast 1
  | rem | less | equal | cons | subscript => .exactly 2
  | floor | head | tail | table | kind => .exactly 1
  | print | die => .atLeast 0

/-- Refuses a value of the wrong kind. -/
def refuse {α : Type} (op : Primitive) (what : String) (v : Value) : Except Cause α :=
  .error (.mismatch op.name (.expected what v.kind))

def number (op : Primitive) : Value → Except Cause Number
  | .number x => .ok x
  | v => refuse op "Number" v

/-- Numbers are added; if either value is a text, both texts are joined. -/
def addPair (h : Heap) : Value → Value → Except Cause Value
  | .number x, .number y => .ok (.number (x + y))
  | .text s, v => .ok (.text (s ++ h.display v))
  | v, .text s => .ok (.text (h.display v ++ s))
  | .number _, v => refuse add "Number or String" v
  | v, _ => refuse add "Number or String" v

def addAll (h : Heap) (v : Value) : List Value → Except Cause Value
  | [] =>
    match v with
    | .number _ | .text _ => .ok v
    | v => refuse add "Number or String" v
  | vs => vs.foldlM (addPair h) v

/-- Combines numbers from the left. -/
def combine (op : Primitive) (f : Number → Number → Number) (v : Value) (vs : List Value) :
    Except Cause Value := do
  let x ← op.number v
  let y ← vs.foldlM (fun x v => return f x (← op.number v)) x
  return .number y

def compare : Value → Value → Except Cause Bool
  | .number x, .number y => .ok (x < y)
  | .text s, .text t => .ok (s < t)
  | v, w => .error (.mismatch less.name (.incomparable v.kind w.kind))

/-- A value as an index into a sequence: a whole number that is not negative. -/
def index? : Value → Option Nat
  | .number x => if x.isIntegral && 0 ≤ x then some ((x.toInt?.getD 0).toNat) else none
  | _ => none

/-- What stands under a key: in a table by the key, in a list or text by position. Nothing can be
looked up in nil, and other values hold nothing. -/
def lookUp (h : Heap) (key : Value) : Value → Except Cause Value
  | .table id => .ok (((h.get id).get? key).getD .nil)
  | .list items => .ok (((index? key).bind (items[·]?)).getD .nil)
  | .text s => .ok ((((index? key).bind (s.toList[·]?)).map .ofChar).getD .nil)
  | .nil => .error (.mismatch subscript.name (.subscriptOfNil (h.inspect key)))
  | _ => .ok .nil

def sequence : String := "Array or String"

def first : Value → Except Cause Value
  | .list items => .ok (items.head?.getD .nil)
  | .text s => .ok ((s.toList.head?.map .ofChar).getD .nil)
  | v => refuse head sequence v

def others : Value → Except Cause Value
  | .list items => .ok (.list items.tail)
  | .text s => .ok (.text (String.ofList s.toList.tail))
  | v => refuse tail sequence v

/-- A text in the second place counts as the list of its characters. -/
def prepend (v : Value) : Value → Except Cause Value
  | .list items => .ok (.list (v :: items))
  | .text s => .ok (.list (v :: Value.charsOf s))
  | w => refuse cons "Array" w

/-- The keys and values of a table that is to be made, by turns. -/
def flatItems : Value → Except Cause (List Value)
  | .list items => .ok items
  | v => refuse table "Array" v

open Eval (ofExcept consult perform fail)

def call : Primitive → List Value → Eval Value
  | add, v :: vs => consult (addAll · v vs)
  | mul, v :: vs => ofExcept (combine mul (· * ·) v vs)
  | div, [v] => ofExcept (combine div (· / ·) (.number 1) [v])
  | div, v :: vs => ofExcept (combine div (· / ·) v vs)
  | rem, [v, w] => ofExcept (combine rem Number.rem v [w])
  | floor, [v] => ofExcept do
    let x ← floor.number v
    return .number (Number.floor x)
  | less, [v, w] => ofExcept do
    let b ← compare v w
    return .bool b
  | equal, [v, w] => return .bool (v.loose w)
  | head, [v] => ofExcept (first v)
  | tail, [v] => ofExcept (others v)
  | cons, [v, w] => ofExcept (prepend v w)
  | table, [v] => do
    let items ← ofExcept (flatItems v)
    perform (.make (.ofFlat items))
  | subscript, [v, key] => consult (lookUp · key v)
  | kind, [v] => return .text v.kind.name
  | print, vs => do
    let line := (← get).heap.displayAll vs
    perform (.write .output line)
  | die, vs => do
    let message := (← get).heap.displayAll vs
    fail (.died message)
  | op, vs => fail (.arity op.name op.arity vs.length)

end Lisplet.Primitive
