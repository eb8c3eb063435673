import Lisplet.Eval.Apply
import Lisplet.Eval.Special

/-!
Evaluation of forms. `step` says what a form means in terms of what the forms inside it mean, and
`evaluate` ties the knot by recursion on how many more forms may be open.
-/

namespace Lisplet

namespace Eval

/-- A call: the head first; a special form gets its operands as they are, everything else their
values. The empty call is nil. -/
def evalCall (access : Access) (ev : Evaluator) (scope : Bindings) : List Form → Eval Value
  | [] => return .nil
  | head :: operands => do
    match ← ev scope head with
    | .function (.special form) => callSpecial ev scope operands form
    | .function f => do
      let args ← evalAll ev scope operands
      applyFunction access ev scope args f
    | _ => do
      let _ ← evalAll ev scope operands
      fail (.notCallable head.render)

/-- The value of a form, given the values of the forms inside it. -/
def step (access : Access) (ev : Evaluator) (scope : Bindings) : Form → Eval Value
  | .atom a => return .ofAtom a
  | .symbol name => evalSymbol scope name
  | .call items _ => evalCall access ev scope items
  | .quoted items _ | .vector items => do
    let vs ← evalAll ev scope items
    return .list vs
  | .table entries => do
    let t ← evalEntries ev scope [] entries
    makeTable t

end Eval

/-- Evaluates a form inside which, itself included, `room` forms may be open at once. -/
def evaluate (access : Access) : (room : Nat) → Evaluator
  | 0, _, _ => do Eval.fail (.overflow (← get).depth)
  | room + 1, scope, form => Eval.framed form (Eval.step access (evaluate access room) scope form)

end Lisplet
