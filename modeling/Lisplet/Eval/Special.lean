import Lisplet.Eval.Basic

/-!
The special forms. Each looks at its operands before any of them is evaluated, and evaluates only
those it selects.
-/

namespace Lisplet.Eval

def misshapen {α : Type} (form : SpecialForm) (m : Misshape) : Eval α := fail (.misshapen form m)

def bindingName (form : SpecialForm) : Form → Eval String
  | .symbol name => return name
  | other => misshapen form (.notSymbol other)

def paramNames (form : SpecialForm) : List Form → Eval (List String)
  | [] => return []
  | .symbol name :: forms => do
    let names ← paramNames form forms
    return name :: names
  | other :: _ => misshapen form (.paramNotSymbol other)

/-- A variant that stands in brackets of its own. -/
def readVariant (form : SpecialForm) : Form → Eval Variant
  | .call (.vector params :: body) _ | .call (.call params _ :: body) _ => do
    let params ← paramNames form params
    return ⟨params, body⟩
  | .call items l => misshapen form (.variantWithoutParams (.call items l))
  | other => misshapen form (.variantNotList other)

def readVariants (form : SpecialForm) : List Form → Eval (List Variant)
  | [] => return []
  | v :: vs => do
    let variant ← readVariant form v
    let variants ← readVariants form vs
    return variant :: variants

/-- The variants of a function: one written inline, or several in brackets. -/
def functionVariants (form : SpecialForm) : List Form → Eval (List Variant)
  | [] => misshapen form .noVariant
  | .vector params :: body => do
    let params ← paramNames form params
    return [⟨params, body⟩]
  | forms => readVariants form forms

def evalDefine (ev : Evaluator) : List Form → Eval Value
  | [name] => do
    let name ← bindingName .define name
    define name .nil
    return .nil
  | [name, form] => do
    let name ← bindingName .define name
    let v ← ev .empty form
    define name v
    return .nil
  | _ => misshapen .define .noNameAndValue

def evalLambda (forms : List Form) : Eval Value := do
  let variants ← functionVariants .lambda forms
  let id ← freshId
  return .function (.closure id none variants)

def evalDefineFunction : List Form → Eval Value
  | [] => misshapen .defineFunction .noName
  | name :: forms => do
    let name ← bindingName .defineFunction name
    let variants ← functionVariants .defineFunction forms
    let id ← freshId
    define name (.function (.closure id (some name) variants))
    return .nil

def evalIsDefined (scope : Bindings) : List Form → Eval Value
  | [name] => do
    let name ← bindingName .isDefined name
    return .bool (scope.contains name || (← get).globals.contains name)
  | _ => misshapen .isDefined .notOneName

def evalIf (ev : Evaluator) (scope : Bindings) : List Form → Eval Value
  | [test, yes] => do
    if (← ev scope test).isTruthy then ev scope yes else return .nil
  | [test, yes, no] => do
    if (← ev scope test).isTruthy then ev scope yes else ev scope no
  | forms => fail (.arity SpecialForm.cond.name (.between 2 3) forms.length)

/-- The clauses of a case: keys and values by turns, and possibly a default. -/
def evalClauses (ev : Evaluator) (scope : Bindings) (subject : Value) : List Form → Eval Value
  | [] => return .nil
  | [default] => ev scope default
  | key :: form :: clauses => do
    if subject.loose (← ev scope key) then ev scope form
    else evalClauses ev scope subject clauses

def evalCase (ev : Evaluator) (scope : Bindings) : List Form → Eval Value
  | [] => misshapen .case .noSubject
  | subject :: clauses => do
    let v ← ev scope subject
    evalClauses ev scope v clauses

/-- True if every operand is; the first that is not ends the evaluation. -/
def evalAnd (ev : Evaluator) (scope : Bindings) : List Form → Eval Value
  | [] => return .bool true
  | form :: forms => do
    if (← ev scope form).isTruthy then evalAnd ev scope forms else return .bool false

/-- True if any operand is; the first that is ends the evaluation. -/
def evalOr (ev : Evaluator) (scope : Bindings) : List Form → Eval Value
  | [] => return .bool false
  | form :: forms => do
    if (← ev scope form).isTruthy then return .bool true else evalOr ev scope forms

/-- The values of local names, all of which are evaluated in the scope outside. -/
def evalBindings (ev : Evaluator) (scope : Bindings) : List Form → Eval (List (String × Value))
  | .symbol name :: form :: rest => do
    let v ← ev scope form
    let bound ← evalBindings ev scope rest
    return (name, v) :: bound
  | other :: _ :: _ => misshapen .binding (.bindingNotSymbol other)
  | _ => return []

def evalLet (ev : Evaluator) (scope : Bindings) : List Form → Eval Value
  | [] => misshapen .binding .noBindings
  | .vector items :: body => do
    if items.length % 2 = 1 then misshapen .binding .oddBindings
    else
      let bound ← evalBindings ev scope items
      evalBody ev (scope.layer bound) .nil body
  | _ => fail (.mismatch SpecialForm.binding.name .bindingsNotVector)

def callSpecial (ev : Evaluator) (scope : Bindings) (operands : List Form) :
    SpecialForm → Eval Value
  | .eval =>
    match operands with
    | [form] => ev scope form
    | _ => misshapen .eval .notOneOperand
  | .define => evalDefine ev operands
  | .lambda => evalLambda operands
  | .defineFunction => evalDefineFunction operands
  | .isDefined => evalIsDefined scope operands
  | .cond => evalIf ev scope operands
  | .case => evalCase ev scope operands
  | .binding => evalLet ev scope operands
  | .and => evalAnd ev scope operands
  | .or => evalOr ev scope operands

end Lisplet.Eval
