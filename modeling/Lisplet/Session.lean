import Lisplet.Bindings
import Lisplet.Effect
import Lisplet.Failure

/-!
The state of a running program, and evaluation as a change of that state with a value or a failure
for its outcome. A failure keeps the changes made before it.
-/

namespace Lisplet

structure Session where
  globals : Bindings
  heap : Heap
  /-- The number of the next function that is made. -/
  fresh : Nat
  output : String
  diagnostics : String
  /-- How many forms are being evaluated inside one another. -/
  depth : Nat
  /-- The calls among them, innermost first. -/
  calls : List OpenCall
  devices : Devices

abbrev Eval := EStateM Failure Session

namespace Session

def initial : Session := ⟨.empty, .empty, 0, "", "", 0, [], {}⟩

def write (s : Session) (channel : Channel) (line : String) : Session :=
  match channel with
  | .output => { s with output := s.output ++ line ++ "\n" }
  | .diagnostics => { s with diagnostics := s.diagnostics ++ line ++ "\n" }

def emit (s : Session) (channel : Channel) (part : String) : Session :=
  match channel with
  | .output => { s with output := s.output ++ part }
  | .diagnostics => { s with diagnostics := s.diagnostics ++ part }

/-- Hands a line to the device of a channel. Of a line that is refused a part may be out. -/
def hand (s : Session) (channel : Channel) (line : String) : Session :=
  let t := { s with devices := s.devices.next channel }
  match s.devices.refusal? channel with
  | none => t.write channel line
  | some r => t.emit channel (r.part line)

/-- Handing over a line touches only what has been written and the devices. -/
theorem hand_eq (s : Session) (channel : Channel) (line : String) :
    ∃ output diagnostics, s.hand channel line =
      { s with output, diagnostics, devices := s.devices.next channel } := by
  unfold hand
  cases s.devices.refusal? channel <;> cases channel <;> exact ⟨_, _, rfl⟩

/-- Starts the evaluation of a form. -/
def enter (s : Session) : Form → Session
  | .call items l => { s with depth := s.depth + 1, calls := ⟨items, l⟩ :: s.calls }
  | _ => { s with depth := s.depth + 1 }

def leave (s : Session) : Form → Session
  | .call .. => { s with depth := s.depth - 1, calls := s.calls.tail }
  | _ => { s with depth := s.depth - 1 }

end Session

namespace Eval

def fail {α : Type} (cause : Cause) : Eval α := throw (.ofCause cause)

def ofExcept {α : Type} : Except Cause α → Eval α
  | .ok a => pure a
  | .error cause => fail cause

/-- Settles something by the tables as they are. -/
def consult {α : Type} (f : Heap → Except Cause α) : Eval α := do
  ofExcept (f (← get).heap)

/-- A number that no function made so far has. -/
def freshId : Eval Nat :=
  modifyGet fun s => (s.fresh, { s with fresh := s.fresh + 1 })

def define (name : String) (value : Value) : Eval Unit :=
  modify fun s => { s with globals := s.globals.insert name value }

def makeTable (t : Table) : Eval Value :=
  modifyGet fun s => (.table s.heap.size, { s with heap := s.heap.push t })

/-- What comes of a line: nil, or a failure if it was refused. -/
def ofRefusal? (channel : Channel) : Option Refusal → Eval Value
  | none => return .nil
  | some r => fail (.file channel.name (.other r.message))

def perform : Effect → Eval Value
  | .give v => pure v
  | .make t => makeTable t
  | .change id t v => do
    modify fun s => { s with heap := s.heap.put id t }
    return v
  | .write channel line => do
    let refusal? := (← get).devices.refusal? channel
    modify (·.hand channel line)
    ofRefusal? channel refusal?
  | .build j =>
    modifyGet fun s =>
      let (v, heap) := j.build s.heap
      (v, { s with heap })

/-- Runs an evaluation as that of one form: the form counts as open meanwhile, and a failure that
comes out of it knows the calls that were open. -/
@[inline] def framed (form : Form) (act : Eval Value) : Eval Value := fun s =>
  match act (s.enter form) with
  | .ok v s => .ok v (s.leave form)
  | .error e s => .error (e.annotate s.calls) (s.leave form)

end Eval

end Lisplet
