import Lisplet.Eval.Basic
import Lisplet.Eval.Spread
import Lisplet.Host.Global
import Lisplet.Host.Object
import Lisplet.Params
import Lisplet.Primitive

/-!
Application of functions to values. The body of a function is evaluated in the scope of the call
with the parameters on top, so names that the body leaves free are looked up where the function is
called.
-/

namespace Lisplet.Eval

def callMember (access : Access) (m : Member) (args : List Value) : Eval Value :=
  match m, args with
  | .field name, object :: _ => consult (Host.field · object name)
  | .method name, object :: rest => Host.method object name rest
  | .global path, args => Host.global access path args
  | m, [] => fail (.mismatch m.text .missingObject)

def callProbe (scope : Bindings) : Probe → Eval Value
  | .depth => return .ofNat (← get).depth
  | .trace => return .list ((traceLines (← get).calls).map .text)
  | .locals => return .ofNat scope.size

/-- Calls the first variant that takes the arguments. -/
def callVariants (ev : Evaluator) (scope : Bindings) (name : Option String) (args : List Value) :
    List Variant → Eval Value
  | [] => do
    let h := (← get).heap
    fail (.noSignature name (", ".intercalate (args.map h.display)))
  | variant :: variants => do
    match ← ofExcept (Params.bind? variant.params args) with
    | some bound => evalBody ev (scope.layer bound) (.list []) variant.body
    | none => callVariants ev scope name args variants

/-- Calls a function other than `apply`, which `spread` has replaced by the function to be called.
-/
def callDirect (access : Access) (ev : Evaluator) (scope : Bindings) (args : List Value) :
    Function → Eval Value
  | .special form => fail (.mismatch form.name .specialApplied)
  | .primitive op => op.call args
  | .apply => return .nil
  | .probe p => callProbe scope p
  | .member _ m => callMember access m args
  | .closure _ name variants => callVariants ev scope name args variants

def applyFunction (access : Access) (ev : Evaluator) (scope : Bindings) (args : List Value) :
    Function → Eval Value
  | .apply => do
    let h := (← get).heap
    let (f, args) ← ofExcept (spread h args)
    callDirect access ev scope args f
  | f => callDirect access ev scope args f

end Lisplet.Eval
