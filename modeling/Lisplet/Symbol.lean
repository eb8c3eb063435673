import Lisplet.Value.Function

/-!
What a symbol means. A leading dot makes it a field or a method, and a path of nonempty segments
between slashes a global of the host; every other symbol is a variable.
-/

namespace Lisplet

/-- The segments of a path. -/
def splitPath : List Char → List (List Char)
  | [] => [[]]
  | c :: cs =>
    if c = '/' then [] :: splitPath cs
    else
      match splitPath cs with
      | segment :: rest => (c :: segment) :: rest
      | [] => [[c]]

/-- The member that a symbol reaches, unless it is a variable. -/
def Member.ofSymbol? (name : String) : Option Member :=
  match name.toList with
  | '.' :: '-' :: cs => some (.field (String.ofList cs))
  | '.' :: cs => some (.method (String.ofList cs))
  | cs =>
    let segments := splitPath cs
    if 2 ≤ segments.length ∧ segments.all (!·.isEmpty) then
      some (.global (segments.map String.ofList))
    else none

end Lisplet
