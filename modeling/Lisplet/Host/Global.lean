import Lisplet.Host.Call
import Lisplet.Json.OfValue
import Lisplet.Json.Reader
import Lisplet.Session

/-!
Globals of the host: members of the namespaces for mathematics, numbers, texts, JSON and the
console. Which namespaces a program may reach is settled before anything else about a call.
-/

namespace Lisplet

/-- The namespaces that a program may reach, or all of them. -/
inductive Access
  | all
  | only (scopes : List String)
  deriving Repr, DecidableEq

def Access.allows : Access → String → Bool
  | all, _ => true
  | only scopes, scope => scopes.contains scope

namespace Host

def unary (c : HostCall) (f : Number → Number) : Except Cause Value := do
  let x ← c.numberArg 0
  return .number (f x)

/-- `1` or `-1` by the sign; zeros and NaN stay. -/
def signOf (x : Number) : Number := if x == 0 then x else x.sign

/-- The extreme of numbers, where `better` says which of two is. NaN ends the search at once. -/
def extreme (c : HostCall) (better : Number → Number → Bool) :
    Number → List Value → Except Cause Value
  | best, [] => .ok (.number best)
  | best, v :: vs => do
    let x ← c.number v
    if x.isNaN then return .number x
    else extreme c better (if better x best then x else best) vs

def math (c : HostCall) : String → Except Cause Value
  | "floor" => unary c Number.floor
  | "ceil" => unary c Number.ceil
  | "round" => unary c Number.round
  | "trunc" => unary c Number.trunc
  | "abs" => unary c Float.abs
  | "sqrt" => unary c Float.sqrt
  | "sign" => unary c signOf
  | "pow" => do
    let base ← c.numberArg 0
    let exponent ← c.numberArg 1
    return .number (Float.pow base exponent)
  | "min" => extreme c (· < ·) Number.infinity c.args
  | "max" => extreme c (· > ·) Number.negInfinity c.args
  | _ => c.fail .unknownGlobal

def numbers (h : Heap) (c : HostCall) : String → Except Cause Value
  | "parseFloat" => do
    let v ← c.arg 0
    return .number (Number.ofTextStart (h.display v))
  | "isInteger" => do
    match ← c.arg 0 with
    | .number x => return .bool x.isIntegral
    | _ => return .bool false
  | "isNaN" => do
    match ← c.arg 0 with
    | .number x => return .bool x.isNaN
    | _ => return .bool false
  | _ => c.fail .unknownGlobal

def replacement : Char := '�'

/-- The character of a code; a code that is none has the replacement character. -/
def charOfCode (x : Number) : Char :=
  let n := x.clampNat 32
  if n.isValidChar then Char.ofNat n else replacement

def texts (c : HostCall) : String → Except Cause Value
  | "fromCharCode" => do
    let codes ← c.args.mapM c.number
    return .text (String.ofList (codes.map charOfCode))
  | _ => c.fail .unknownGlobal

/-- The text of the document of a value. -/
def stringified (h : Heap) (c : HostCall) : Except Cause Value := do
  let v ← c.arg 0
  match h.json? v with
  | some j => return .text j.render
  | none => c.fail .cyclic

/-- The document that a text holds. -/
def document (c : HostCall) : Except Cause Json := do
  let s ← c.textArg 0
  match Json.read s.toList with
  | .ok j => return j
  | .error fault => c.fail (.badJson fault s)

open Eval (ofExcept consult perform)

def json (c : HostCall) : String → Eval Value
  | "stringify" => consult (stringified · c)
  | "parse" => do
    let j ← ofExcept (document c)
    perform (.build j)
  | _ => ofExcept (c.fail .unknownGlobal)

def console (c : HostCall) : String → Eval Value
  | "log" => do
    let line := (← get).heap.displayAll c.args
    perform (.write .output line)
  | "error" => do
    let line := (← get).heap.displayAll c.args
    perform (.write .diagnostics line)
  | _ => ofExcept (c.fail .unknownGlobal)

/-- A member of a namespace that is allowed. -/
def inScope (c : HostCall) (member : String) : (scope : String) → Eval Value
  | "Math" => ofExcept (math c member)
  | "Number" => consult (numbers · c member)
  | "String" => ofExcept (texts c member)
  | "JSON" => json c member
  | "console" => console c member
  | _ => ofExcept (c.fail .unknownGlobal)

def global (access : Access) (path : List String) (args : List Value) : Eval Value :=
  let c : HostCall := ⟨"/".intercalate path, args⟩
  match path with
  | [scope, member] =>
    if access.allows scope then inScope c member scope else ofExcept (c.fail (.denied scope))
  | _ => ofExcept (c.fail .unknownGlobal)

end Host

end Lisplet
