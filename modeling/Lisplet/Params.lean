import Lisplet.Failure

/-!
Parameter lists. The marker `&` stands before the rest parameter: parameters before the marker take
arguments from the front, those behind the rest parameter from the back, and the rest parameter the
list of what lies between.
-/

namespace Lisplet.Params

def restMarker : String := "&"

/-- A parameter list taken apart. -/
inductive Shape
  | plain (names : List String)
  | rest (leading : List String) (rest : String) (trailing : List String)
  /-- The marker stands last or twice. -/
  | malformed
  deriving Repr, DecidableEq

def shape (params : List String) : Shape :=
  let leading := params.takeWhile (· ≠ restMarker)
  match params.dropWhile (· ≠ restMarker) with
  | [] => .plain leading
  | _ :: behind =>
    match behind with
    | [] => .malformed
    | rest :: trailing =>
      if behind.contains restMarker then .malformed else .rest leading rest trailing

/-- Binds arguments to parameters, if their number fits: the leading ones, the trailing ones and
then the rest. -/
def bind? (params : List String) (args : List Value) :
    Except Cause (Option (List (String × Value))) :=
  match shape params with
  | .plain names => .ok (if names.length = args.length then some (names.zip args) else none)
  | .rest leading rest trailing =>
    let between := args.length - leading.length - trailing.length
    let behind := args.drop leading.length
    .ok (if leading.length + trailing.length ≤ args.length then
      some (leading.zip args ++ trailing.zip (behind.drop between) ++
        [(rest, .list (behind.take between))])
    else none)
  | .malformed => .error .restMarker

end Lisplet.Params
