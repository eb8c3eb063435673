import Lisplet.Failure
import Lisplet.Number.Integral
import Lisplet.Text.Search

/-!
A use of a member of the host, with the checks that all members make of their arguments.
-/

namespace Lisplet

structure HostCall where
  path : String
  args : List Value

namespace HostCall

def fail {α : Type} (c : HostCall) (fault : HostFault) : Except Cause α :=
  .error (.host c.path fault)

def arg (c : HostCall) (i : Nat) : Except Cause Value :=
  match c.args[i]? with
  | some v => .ok v
  | none => c.fail (.missingArgument i)

def number (c : HostCall) : Value → Except Cause Number
  | .number x => .ok x
  | v => c.fail (.expected .number v.kind)

def text (c : HostCall) : Value → Except Cause String
  | .text s => .ok s
  | v => c.fail (.expected .text v.kind)

def numberArg (c : HostCall) (i : Nat) : Except Cause Number := c.arg i >>= c.number

def textArg (c : HostCall) (i : Nat) : Except Cause String := c.arg i >>= c.text

/-- A position or a count: a number that is not negative, without its fraction. -/
def index (c : HostCall) (v : Value) : Except Cause Nat := do
  let x ← c.number v
  if x < 0 || x.isNaN then c.fail .negative else .ok (x.clampNat 64)

/-- A position in a sequence of a given length, found in floating-point arithmetic: fractions are
cut off, a negative position counts from the end, and one outside is moved to the near end. NaN
stands for the end. -/
def position (length : Nat) (x : Number) : Nat :=
  let whole := Number.trunc x
  if whole < 0 then Number.clampNat 64 (Number.greater (Float.ofNat length + whole) 0)
  else Number.clampNat 64 (Number.lesser whole (Float.ofNat length))

def positionArg (c : HostCall) (length : Nat) (i : Nat) (default : Nat) : Except Cause Nat :=
  match c.args[i]? with
  | some v => return position length (← c.number v)
  | none => .ok default

/-- Where a slice of a sequence of a given length starts and ends. -/
def bounds (c : HostCall) (length : Nat) : Except Cause (Nat × Nat) := do
  let start ← c.positionArg length 0 0
  let stop ← c.positionArg length 1 length
  return (start, max start stop)

def slice {α : Type} (c : HostCall) (xs : List α) : Except Cause (List α) := do
  let (start, stop) ← c.bounds xs.length
  return Text.cut start stop xs

end HostCall

end Lisplet
