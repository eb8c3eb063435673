import Lisplet.Eval.Apply

/-!
Plans of calls. A primitive or a member of the host is a program in the session: it may fail, look
at the tables and act on the session in any order. Each of them is a plan carried out. All its
checks are made of the arguments and of the tables as they are when it is called, and its one act
comes after them.
-/

namespace Lisplet

namespace Primitive

def plan (h : Heap) : Primitive → List Value → Except Cause Effect
  | add, v :: vs => .give <$> addAll h v vs
  | mul, v :: vs => .give <$> combine mul (· * ·) v vs
  | div, [v] => .give <$> combine div (· / ·) (.number 1) [v]
  | div, v :: vs => .give <$> combine div (· / ·) v vs
  | rem, [v, w] => .give <$> combine rem Number.rem v [w]
  | floor, [v] => .give <$> do
    let x ← floor.number v
    return .number (Number.floor x)
  | less, [v, w] => .give <$> do
    let b ← compare v w
    return .bool b
  | equal, [v, w] => .ok (.give (.bool (v.loose w)))
  | head, [v] => .give <$> first v
  | tail, [v] => .give <$> others v
  | cons, [v, w] => .give <$> prepend v w
  | table, [v] => do
    let items ← flatItems v
    return .make (.ofFlat items)
  | subscript, [v, key] => .give <$> lookUp h key v
  | kind, [v] => .ok (.give (.text v.kind.name))
  | print, vs => .ok (.write .output (h.displayAll vs))
  | die, vs => .error (.died (h.displayAll vs))
  | op, vs => .error (.arity op.name op.arity vs.length)

end Primitive

namespace Host

def tablePlan (h : Heap) (c : HostCall) (id : TableId) : String → Except Cause Effect
  | "get" => do
    let key ← c.arg 0
    return .give (((h.get id).get? key).getD .nil)
  | "set" => do
    let key ← c.arg 0
    let value ← c.arg 1
    return .change id ((h.get id).set key value) (.table id)
  | "has" => do
    let key ← c.arg 0
    return .give (.bool ((h.get id).has key))
  | "delete" | "del" => do
    let key ← c.arg 0
    return .change id ((h.get id).erase key) (.bool ((h.get id).has key))
  | "keys" => .ok (.give (.list (h.get id).keys))
  | "values" => .ok (.give (.list (h.get id).values))
  | name => c.fail (.noMethod .table name)

def methodPlan (h : Heap) (object : Value) (name : String) (args : List Value) :
    Except Cause Effect :=
  let c : HostCall := ⟨"." ++ name, args⟩
  match object with
  | .table id => tablePlan h c id name
  | .text s => .give <$> textMethod h c s name
  | .list items => .give <$> listMethod h c items name
  | .number x => .give <$> numberMethod c x name
  | .nil => c.fail .methodOfNil
  | v => c.fail (.noMethod v.kind name)

def jsonPlan (h : Heap) (c : HostCall) : String → Except Cause Effect
  | "stringify" => .give <$> stringified h c
  | "parse" => do
    let j ← document c
    return .build j
  | _ => c.fail .unknownGlobal

def consolePlan (h : Heap) (c : HostCall) : String → Except Cause Effect
  | "log" => .ok (.write .output (h.displayAll c.args))
  | "error" => .ok (.write .diagnostics (h.displayAll c.args))
  | _ => c.fail .unknownGlobal

def scopePlan (h : Heap) (c : HostCall) (member : String) : (scope : String) → Except Cause Effect
  | "Math" => .give <$> math c member
  | "Number" => .give <$> numbers h c member
  | "String" => .give <$> texts c member
  | "JSON" => jsonPlan h c member
  | "console" => consolePlan h c member
  | _ => c.fail .unknownGlobal

def globalPlan (access : Access) (h : Heap) (path : List String) (args : List Value) :
    Except Cause Effect :=
  let c : HostCall := ⟨"/".intercalate path, args⟩
  match path with
  | [scope, member] =>
    if access.allows scope then scopePlan h c member scope else c.fail (.denied scope)
  | _ => c.fail .unknownGlobal

def memberPlan (access : Access) (h : Heap) (m : Member) (args : List Value) :
    Except Cause Effect :=
  match m, args with
  | .field name, object :: _ => .give <$> field h object name
  | .method name, object :: rest => methodPlan h object name rest
  | .global path, args => globalPlan access h path args
  | m, [] => .error (.mismatch m.text .missingObject)

end Host

namespace Eval

/-- A value that is settled by the tables is planned to be given. -/
theorem consult_eq (f : Heap → Except Cause Value) (s : Session) :
    consult f s = (ofExcept (.give <$> f s.heap) >>= perform) s := by
  change ofExcept (f s.heap) s = _
  cases f s.heap <;> rfl

theorem ofExcept_eq (x : Except Cause Value) (s : Session) :
    ofExcept x s = (ofExcept (.give <$> x) >>= perform) s :=
  consult_eq (fun _ => x) s

/-- A check before an act is a part of the plan. -/
theorem ofExcept_bind_perform {α : Type} (x : Except Cause α) (act : α → Effect) :
    (ofExcept x >>= fun a => perform (act a)) = ofExcept (act <$> x) >>= perform := by
  cases x <;> rfl

end Eval

open Eval

/-- The checks of a primitive come before its act. -/
theorem Primitive.call_eq (op : Primitive) (args : List Value) (s : Session) :
    op.call args s = (ofExcept (op.plan s.heap args) >>= perform) s := by
  fun_cases plan s.heap op args with
  | case1 v vs => exact consult_eq (addAll · v vs) s
  | case4 v vs hne =>
    -- one argument has a branch of its own
    rcases vs with _ | ⟨w, vs⟩
    · exact absurd rfl hne
    · exact ofExcept_eq _ s
  | case12 v => exact congrFun (ofExcept_bind_perform (flatItems v) _) s
  | case13 v key => exact consult_eq (lookUp · key v) s
  | case8 | case14 | case15 | case16 => rfl
  | case17 => rw [call] <;> first | rfl | assumption
  | _ => exact ofExcept_eq _ s

namespace Host

/-- The checks of a method of tables come before its act. -/
theorem tableMethod_eq (c : HostCall) (id : TableId) (name : String) (s : Session) :
    tableMethod c id name s = (ofExcept (tablePlan s.heap c id name) >>= perform) s := by
  fun_cases tablePlan s.heap c id name with
  | case2 =>
    unfold tableMethod
    cases c.arg 0 <;> cases c.arg 1 <;> rfl
  | case1 | case3 | case4 | case5 =>
    unfold tableMethod
    cases c.arg 0 <;> rfl
  | case6 | case7 => rfl
  | case8 => rw [tableMethod] <;> first | rfl | assumption

theorem method_eq (object : Value) (name : String) (args : List Value) (s : Session) :
    method object name args s =
      (ofExcept (methodPlan s.heap object name args) >>= perform) s := by
  rcases object with _ | b | x | text | items | id | f
  · rfl
  · rfl
  · exact ofExcept_eq _ s
  · exact consult_eq (textMethod · _ text name) s
  · exact consult_eq (listMethod · _ items name) s
  · exact tableMethod_eq _ id name s
  · rfl

theorem method_of_plan {object : Value} {name : String} {args : List Value} {s : Session}
    {e : Effect} (he : methodPlan s.heap object name args = .ok e) :
    method object name args s = perform e s := by
  rw [method_eq, he]
  rfl

theorem json_eq (c : HostCall) (member : String) (s : Session) :
    json c member s = (ofExcept (jsonPlan s.heap c member) >>= perform) s := by
  fun_cases jsonPlan s.heap c member with
  | case1 => exact consult_eq (stringified · c) s
  | case2 => exact congrFun (ofExcept_bind_perform (document c) _) s
  | case3 => rw [json] <;> first | rfl | assumption

theorem console_eq (c : HostCall) (member : String) (s : Session) :
    console c member s = (ofExcept (consolePlan s.heap c member) >>= perform) s := by
  fun_cases consolePlan s.heap c member with
  | case1 | case2 => rfl
  | case3 => rw [console] <;> first | rfl | assumption

theorem inScope_eq (c : HostCall) (member scope : String) (s : Session) :
    inScope c member scope s = (ofExcept (scopePlan s.heap c member scope) >>= perform) s := by
  fun_cases scopePlan s.heap c member scope with
  | case1 | case3 => exact ofExcept_eq _ s
  | case2 => exact consult_eq (numbers · c member) s
  | case4 => exact json_eq c member s
  | case5 => exact console_eq c member s
  | case6 => rw [inScope] <;> first | rfl | assumption

theorem global_eq (access : Access) (path : List String) (args : List Value) (s : Session) :
    global access path args s =
      (ofExcept (globalPlan access s.heap path args) >>= perform) s := by
  fun_cases globalPlan access s.heap path args with
  | case1 scope member hallows c =>
    rw [global, if_pos hallows]
    exact inScope_eq c member scope s
  | case2 scope member hdenied c =>
    rw [global, if_neg hdenied]
    rfl
  | case3 => rw [global] <;> first | rfl | assumption

theorem global_of_plan {access : Access} {path : List String} {args : List Value} {s : Session}
    {e : Effect} (he : globalPlan access s.heap path args = .ok e) :
    global access path args s = perform e s := by
  rw [global_eq, he]
  rfl

end Host

/-- The checks of a member of the host come before its act. -/
theorem Eval.callMember_eq (access : Access) (m : Member) (args : List Value) (s : Session) :
    callMember access m args s =
      (ofExcept (Host.memberPlan access s.heap m args) >>= perform) s := by
  rcases m with name | name | path <;> rcases args with _ | ⟨object, args⟩
  · rfl
  · exact consult_eq (Host.field · object name) s
  · rfl
  · exact Host.method_eq object name args s
  · exact Host.global_eq access path [] s
  · exact Host.global_eq access path (object :: args) s

end Lisplet
