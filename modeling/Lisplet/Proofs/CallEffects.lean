import Lisplet.Proofs.Gate

/-!
What a call of a native function does. All its checks come before its one act: a call that fails
leaves the session as it was when its arguments had been evaluated, unless what failed is the act
itself, a line that its device refused. No device refuses a line in the sessions that programs lead
to on their own; where one does, a part of the line may be out. A call that comes out changes a table only if it is a method of
that table for setting or deleting, and writes only if it is `print` or a member of the console that
does.
-/

namespace Lisplet

namespace Function

def channel? : Function → Option Channel
  | primitive .print => some .output
  | member _ (.global ["console", "log"]) => some .output
  | member _ (.global ["console", "error"]) => some .diagnostics
  | _ => none

inductive Changes : Function → List Value → TableId → Prop
  | method {name : String} (hname : name ∈ ["set", "del", "delete"]) (n : Nat) (id : TableId)
      (args : List Value) : Changes (.member n (.method name)) (.table id :: args) id

end Function

namespace Effect

def onlyAdds : Effect → Bool
  | give _ | make _ | build _ => true
  | change .. | write .. => false

/-- The effects that calls of a function can have. -/
inductive Befits (f : Function) (h : Heap) (args : List Value) : Effect → Prop
  | adds {e : Effect} (hw : f.channel? = none) (hc : ∀ id, ¬f.Changes args id)
      (he : e.onlyAdds = true) : Befits f h args e
  | set {id : TableId} (hc : f.Changes args id) (key value v : Value) :
      Befits f h args (.change id ((h.get id).set key value) v)
  | erase {id : TableId} (hc : f.Changes args id) (key v : Value) :
      Befits f h args (.change id ((h.get id).erase key) v)
  | write {channel : Channel} (hw : f.channel? = some channel) :
      Befits f h args (.write channel (h.displayAll args))

end Effect

/-- The call is refused the line that it writes, and a part of the line may be out. -/
def Function.Refused (f : Function) (args : List Value) (s : Session) (cause : Cause)
    (t : Session) : Prop :=
  ∃ channel r, f.channel? = some channel ∧ s.devices.refusal? channel = some r ∧
    cause = .file channel.name (.other r.message) ∧
    t = { s with devices := s.devices.next channel }.emit channel (r.part (s.heap.displayAll args))

namespace Function.Changes

variable {f : Function} {args : List Value} {id : TableId}

theorem unique (h : f.Changes args id) {id' : TableId} (h' : f.Changes args id') : id' = id := by
  obtain ⟨⟩ := h
  obtain ⟨⟩ := h'
  rfl

end Function.Changes

/-- Of the effects of a call only a line can fail. -/
theorem Effect.Befits.refused {f : Function} {s : Session} {args : List Value} {e : Effect}
    (h : e.Befits f s.heap args) {cause : Cause} (hfails : e.failure? s = some cause) :
    f.Refused args s cause (e.after s) := by
  rcases h with ⟨-, -, hadds⟩ | - | - | @⟨channel, hw⟩
  · rcases e with _ | _ | _ | _ | _ <;> first | cases hfails | cases hadds
  · cases hfails
  · cases hfails
  · obtain ⟨r, hr, rfl⟩ := Option.map_eq_some_iff.1 hfails
    refine ⟨channel, r, hw, hr, rfl, ?_⟩
    rw [after, Session.hand, hr]

namespace Function

variable {f : Function} {args : List Value} {s t : Session} {cause : Cause}

end Function

def Accord.taking (access : Access) : Accord access .same where
  holds s _ := s.devices = {}
  enter {s _ f _} h _ := by cases f <;> exact h
  leave {s _ f _} h _ := by cases f <;> exact h
  fresh h := h
  define h _ _ := h
  act {s _ e _} h _ _ _ _ := by
    cases e with
    | write channel line =>
      obtain ⟨_, _, hhand⟩ := s.hand_eq channel line
      rw [Effect.after, hhand, h]
      cases channel <;> rfl
    | _ => exact h

def Outcome.Befits (f : Function) (args : List Value) (s : Session) (r : Outcome Value) : Prop :=
  (∃ cause, r = .error (.ofCause cause) s) ∨
    ∃ e : Effect, e.Befits f s.heap args ∧ r = e.outcome s

namespace Eval

end Eval

namespace Config

variable {config : Config} {w : Visit} {f : Function} {args : List Value} {t : Session}

theorem runSource_devices (config : Config) (file source : String) (s : Session)
    (h : s.devices = {}) : (Outcome.session (config.runSource file source s)).devices = {} :=
  (runSource_sessions (Accord.taking config.access) Form.like_same file source
    ⟨s.like_same, h⟩).holds

/-- In the sessions that programs lead to no line is refused. -/
theorem runAll_devices {s : Session} (h : config.start = .ok s)
    (sources : List (String × String)) : (config.runAll sources s).devices = {} := by
  have hstart : s.devices = {} :=
    start_induct (P := fun s => s.devices = {}) rfl config.runSource_devices h
  exact runAll_induct (P := fun s => s.devices = {}) config.runSource_devices sources hstart

end Config

end Lisplet
