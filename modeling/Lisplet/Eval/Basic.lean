import Lisplet.Session
import Lisplet.Symbol

/-!
Sequences of forms and symbols. Everything takes the evaluation of single forms as a parameter,
which `evaluate` supplies in the end.
-/

namespace Lisplet

/-- How a form is evaluated in a scope. -/
abbrev Evaluator := Bindings → Form → Eval Value

namespace Eval

def evalAll (ev : Evaluator) (scope : Bindings) : List Form → Eval (List Value)
  | [] => return []
  | form :: forms => do
    let v ← ev scope form
    let vs ← evalAll ev scope forms
    return v :: vs

/-- Evaluates forms in order; the value is that of the last, or `last` if there is none. -/
def evalBody (ev : Evaluator) (scope : Bindings) : (last : Value) → List Form → Eval Value
  | last, [] => return last
  | _, form :: forms => do
    let v ← ev scope form
    evalBody ev scope v forms

def evalEntries (ev : Evaluator) (scope : Bindings) :
    Table → List (Atom × Form) → Eval Table
  | t, [] => return t
  | t, (key, form) :: entries => do
    let v ← ev scope form
    evalEntries ev scope (t.set (.ofAtom key) v) entries

/-- The scope, then the globals, then nil. -/
def lookUp (scope : Bindings) (name : String) : Eval Value := fun s =>
  .ok (((scope.get? name).orElse fun _ => s.globals.get? name).getD .nil) s

def evalSymbol (scope : Bindings) (name : String) : Eval Value :=
  match Member.ofSymbol? name with
  | some m => do
    let id ← freshId
    return .function (.member id m)
  | none => lookUp scope name

end Eval

end Lisplet
