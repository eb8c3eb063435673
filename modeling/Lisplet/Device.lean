/-!
The devices that lines are written to. A device takes a line whole or refuses it, and when it
refuses one a part of the line may be out already.
-/

namespace Lisplet

inductive Channel
  | output
  | diagnostics
  deriving Repr, DecidableEq

/-- What a channel is called where a failure to write would name a file. -/
def Channel.name : Channel → String
  | output => "<output>"
  | diagnostics => "<stderr>"

structure Refusal where
  /-- How many characters of the line and its end were out by then. -/
  taken : Nat
  message : String
  deriving Repr, DecidableEq

def Refusal.part (r : Refusal) (line : String) : String :=
  String.ofList ((line.toList ++ ['\n']).take r.taken)

/-- The answers of a device to the lines that it will be handed; past their end it takes all. -/
abbrev Device := List (Option Refusal)

structure Devices where
  output : Device := []
  diagnostics : Device := []
  deriving Repr, DecidableEq

namespace Devices

def on (d : Devices) : Channel → Device
  | .output => d.output
  | .diagnostics => d.diagnostics

def next (d : Devices) : Channel → Devices
  | .output => { d with output := d.output.tail }
  | .diagnostics => { d with diagnostics := d.diagnostics.tail }

/-- Why the next line is refused, if it is. -/
def refusal? (d : Devices) (channel : Channel) : Option Refusal := (d.on channel).head?.join

end Devices

end Lisplet
