import Lisplet.Failure
import Lisplet.Value.Display

/-!
Calling a function on a list of arguments. The last argument of `apply` is a list whose items are
spread behind the arguments before it; if the function is `apply` itself the same is done again, and
ends because the arguments get lighter each time.
-/

namespace Lisplet

namespace Value

mutual

/-- How many lists and other values a value is made of. -/
def weight : Value → Nat
  | list items => weightAll items + 1
  | _ => 1

def weightAll : List Value → Nat
  | [] => 0
  | v :: vs => weight v + weightAll vs

end

theorem weightAll_append (vs ws : List Value) :
    weightAll (vs ++ ws) = weightAll vs + weightAll ws := by
  induction vs with
  | nil => simp [weightAll]
  | cons v vs ih => simp [weightAll, ih]; omega

theorem weightAll_reverse (vs : List Value) : weightAll vs.reverse = weightAll vs := by
  induction vs with
  | nil => rfl
  | cons v vs ih => simp [weightAll, weightAll_append, ih]; omega

end Value

/-- The function that `apply` calls on these arguments in the end, and the arguments it gets. -/
def spread (h : Heap) (args : List Value) : Except Cause (Function × List Value) :=
  match args with
  | [] => .error (.arity Function.applyName (.atLeast 2) 0)
  | callee :: rest =>
    match _hr : rest.reverse with
    | [] => .error (.arity Function.applyName (.atLeast 2) 1)
    | .list items :: leading =>
      let args := leading.reverse ++ items
      match callee with
      | .function .apply => spread h args
      | .function f => .ok (f, args)
      | v => .error (.notCallable (h.inspect v))
    | v :: _ => .error (.mismatch Function.applyName (.expected "Array" v.kind))
termination_by Value.weightAll args
decreasing_by
  have h := congrArg Value.weightAll _hr
  simp only [Value.weightAll_reverse, Value.weightAll, Value.weight] at h
  simp only [Value.weightAll, Value.weightAll_append, Value.weightAll_reverse, Value.weight]
  omega

theorem spread_ne_apply (h : Heap) (args : List Value) {f : Function} {vs : List Value}
    (hs : spread h args = .ok (f, vs)) : f ≠ .apply := by
  fun_induction spread h args with
  | case1 => cases hs
  | case2 => cases hs
  | case3 _ _ _ _ _ ih => exact ih hs
  | case4 _ _ _ _ _ g hg =>
    simp only [Except.ok.injEq, Prod.mk.injEq] at hs
    intro hf
    exact hg (by rw [← hf, hs.1])
  | case5 => cases hs
  | case6 => cases hs

end Lisplet
