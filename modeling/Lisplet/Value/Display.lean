import Lisplet.Value.Table

/-!
Text of values. Inside lists and tables texts stand in quotes, except as table keys. A table inside
its own text is cut short, so the text of a cyclic table is finite.
-/

namespace Lisplet

namespace Value

mutual

def render (table : TableId → String) (quoted : Bool) : Value → String
  | nil => "nil"
  | bool b => Atom.ofBool b
  | number x => x.text
  | text s => if quoted then Text.quote s else s
  | list items => "[" ++ " ".intercalate (renderAll table items) ++ "]"
  | .table id => table id
  | function f => f.text

def renderAll (table : TableId → String) : List Value → List String
  | [] => []
  | v :: vs => render table true v :: renderAll table vs

end

end Value

namespace Heap

/-- What stands for a table inside its own text. -/
def ellipsis : String := "\x7b...\x7d"

/-- The text of a table inside the texts of the tables in `within`. Tables are opened at most once
on the way in, so there are never more levels than tables. -/
def renderTable (h : Heap) : (levels : Nat) → (within : List TableId) → TableId → String
  | 0, _, _ => ellipsis
  | levels + 1, within, id =>
    if within.contains id then ellipsis
    else
      let inner := h.renderTable levels (id :: within)
      let entry := fun (k, v) => Value.render inner false k ++ " " ++ Value.render inner true v
      "\x7b" ++ ", ".intercalate ((h.get id).map entry) ++ "\x7d"

def displayWithin (h : Heap) (within : List TableId) (v : Value) : String :=
  v.render (h.renderTable (h.size + 2) within) false

def display (h : Heap) (v : Value) : String := h.displayWithin [] v

/-- The text of a value as it would be written in a program: like `display`, with quotes around a
text. -/
def inspect (h : Heap) (v : Value) : String := v.render (h.renderTable (h.size + 2) []) true

def displayAll (h : Heap) (vs : List Value) : String := " ".intercalate (vs.map h.display)

end Heap

end Lisplet
