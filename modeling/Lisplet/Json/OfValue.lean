import Lisplet.Json.Basic
import Lisplet.Value.Display

/-!
The document of a value. Functions and numbers that are not finite become null, and the names of an
object's members are the texts of the table's keys. A table that contains itself through lists and
table values has no document.
-/

namespace Lisplet

namespace Json

mutual

/-- The document of a value, given the documents of tables; `none` if one of them has none. -/
def ofValue? (table : TableId → Option Json) : Value → Option Json
  | .nil | .function _ => some .null
  | .bool b => some (.bool b)
  | .number x => some (if x.isFinite then .number x else .null)
  | .text s => some (.text s)
  | .list items => (ofValues? table items).map .array
  | .table id => table id

def ofValues? (table : TableId → Option Json) : List Value → Option (List Json)
  | [] => some []
  | v :: vs => do
    let j ← ofValue? table v
    let js ← ofValues? table vs
    return j :: js

end

/-- Members set one after another. -/
def setMembers (value : Value → Option Json) (name : Value → String) :
    List (String × Json) → Table → Option (List (String × Json))
  | members, [] => some members
  | members, (k, v) :: entries => do
    let j ← value v
    setMembers value name (setMember members (name k) j) entries

end Json

namespace Heap

/-- The document of a table inside those of the tables in `within`. -/
def jsonOfTable? (h : Heap) : (levels : Nat) → (within : List TableId) → TableId → Option Json
  | 0, _, _ => none
  | levels + 1, within, id =>
    if within.contains id then none
    else
      let inner := h.jsonOfTable? levels (id :: within)
      (Json.setMembers (Json.ofValue? inner) (h.displayWithin (id :: within)) []
        (h.get id)).map .object

def json? (h : Heap) (v : Value) : Option Json := Json.ofValue? (h.jsonOfTable? (h.size + 2) []) v

end Heap

end Lisplet
