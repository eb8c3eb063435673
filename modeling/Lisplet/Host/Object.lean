import Lisplet.Host.Call
import Lisplet.Session
import Lisplet.Text.Lower
import Lisplet.Text.Upper
import Lisplet.Value.Display

/-!
Fields and methods of values. Which there are depends on the kind of the value; only tables have
methods that change anything.
-/

namespace Lisplet.Host

def field (h : Heap) (object : Value) (name : String) : Except Cause Value :=
  let fail fault := .error (.host (".-" ++ name) fault)
  match object, name with
  | .text s, "length" => .ok (.ofNat s.toList.length)
  | .list items, "length" => .ok (.ofNat items.length)
  | .table id, "size" => .ok (.ofNat (h.get id).length)
  | .nil, _ => fail .fieldOfNil
  | v, name => fail (.noField v.kind name)

def ofIndex? : Option Nat → Value
  | some i => .ofNat i
  | none => .number (-1)

def textMethod (h : Heap) (c : HostCall) (s : String) : String → Except Cause Value
  | "toUpperCase" => .ok (.text (Text.toUpper s))
  | "toLowerCase" => .ok (.text (Text.toLower s))
  | "trim" => .ok (.text (Text.trim s))
  | "split" => do
    let sep ← c.textArg 0
    return .list ((Text.split sep.toList s.toList).map fun piece => .text (String.ofList piece))
  | "includes" => do
    let needle ← c.textArg 0
    return .bool (Text.indexOf? (Text.bytes needle.toList) (Text.bytes s.toList)).isSome
  | "startsWith" => do
    let start ← c.textArg 0
    return .bool ((Text.bytes start.toList).isPrefixOf (Text.bytes s.toList))
  | "endsWith" => do
    let last ← c.textArg 0
    return .bool ((Text.bytes last.toList).isSuffixOf (Text.bytes s.toList))
  | "slice" => do
    let cs ← c.slice s.toList
    return .text (String.ofList cs)
  | "indexOf" => do
    let needle ← c.textArg 0
    return ofIndex? (Text.position? needle.toList s.toList)
  | "charAt" => do
    let i ← c.arg 0 >>= c.index
    return .text (String.ofList (s.toList[i]?.toList))
  | "concat" => .ok (.text (s ++ String.join (c.args.map h.display)))
  | name => c.fail (.noMethod .text name)

/-- The text of an item in a joined list; nil is left empty. -/
def joinText (h : Heap) : Value → String
  | .nil => ""
  | v => h.display v

/-- A list spreads its items, every other value stands for itself. -/
def spreadItems : Value → List Value
  | .list items => items
  | v => [v]

def listMethod (h : Heap) (c : HostCall) (items : List Value) : String → Except Cause Value
  | "join" => do
    let sep ← match c.args with
      | [] => .ok ","
      | v :: _ => c.text v
    return .text (sep.intercalate (items.map (joinText h)))
  | "slice" => do
    let items ← c.slice items
    return .list items
  | "concat" => .ok (.list (items ++ c.args.flatMap spreadItems))
  | "indexOf" => do
    let needle ← c.arg 0
    return ofIndex? (items.findIdx? (·.same needle))
  | "includes" => do
    let needle ← c.arg 0
    return .bool (items.any (·.sameKey needle))
  | "reverse" => .ok (.list items.reverse)
  | name => c.fail (.noMethod .list name)

def numberMethod (c : HostCall) (x : Number) : String → Except Cause Value
  | "toFixed" => do
    let digits ← match c.args with
      | [] => .ok 0
      | v :: _ => c.index v
    if 100 < digits then c.fail .tooManyDigits else .ok (.text (x.fixed digits))
  | "toString" => .ok (.text x.text)
  | name => c.fail (.noMethod .number name)

open Eval (ofExcept consult perform)

def tableMethod (c : HostCall) (id : TableId) : String → Eval Value
  | "get" => do
    let key ← ofExcept (c.arg 0)
    return (((← get).heap.get id).get? key).getD .nil
  | "set" => do
    let key ← ofExcept (c.arg 0)
    let value ← ofExcept (c.arg 1)
    let t := (← get).heap.get id
    perform (.change id (t.set key value) (.table id))
  | "has" => do
    let key ← ofExcept (c.arg 0)
    return .bool (((← get).heap.get id).has key)
  | "delete" | "del" => do
    let key ← ofExcept (c.arg 0)
    let t := (← get).heap.get id
    perform (.change id (t.erase key) (.bool (t.has key)))
  | "keys" => return .list ((← get).heap.get id).keys
  | "values" => return .list ((← get).heap.get id).values
  | name => ofExcept (c.fail (.noMethod .table name))

def method (object : Value) (name : String) (args : List Value) : Eval Value :=
  let c : HostCall := ⟨"." ++ name, args⟩
  match object with
  | .table id => tableMethod c id name
  | .text s => consult (textMethod · c s name)
  | .list items => consult (listMethod · c items name)
  | .number x => ofExcept (numberMethod c x name)
  | .nil => ofExcept (c.fail .methodOfNil)
  | v => ofExcept (c.fail (.noMethod v.kind name))

end Lisplet.Host
