import Lisplet.Device
import Lisplet.Json.Basic
import Lisplet.Value.Table

/-!
The acts by which primitives and members of the host give values and reach the session.
-/

namespace Lisplet

inductive Effect
  /-- Gives a value and does nothing. -/
  | give (v : Value)
  /-- Gives a new table. -/
  | make (t : Table)
  /-- Replaces the contents of a table and gives a value. -/
  | change (id : TableId) (t : Table) (v : Value)
  /-- Writes a line and gives nil. -/
  | write (channel : Channel) (line : String)
  /-- Gives the value of a document, every object a new table. -/
  | build (j : Json)

mutual

/-- The value of a document, with the heap grown by its objects. -/
def Json.build (h : Heap) : Json → Value × Heap
  | .null => (.nil, h)
  | .bool b => (.bool b, h)
  | .number x => (.number x, h)
  | .text s => (.text s, h)
  | .array items =>
    let (vs, h) := Json.buildAll h items
    (.list vs, h)
  | .object members =>
    let (entries, h) := Json.buildMembers h members
    (.table h.size, h.push (.ofEntries entries))

def Json.buildAll (h : Heap) : List Json → List Value × Heap
  | [] => ([], h)
  | j :: js =>
    let (v, h) := j.build h
    let (vs, h) := Json.buildAll h js
    (v :: vs, h)

def Json.buildMembers (h : Heap) : List (String × Json) → List (Value × Value) × Heap
  | [] => ([], h)
  | (name, j) :: members =>
    let (v, h) := j.build h
    let (entries, h) := Json.buildMembers h members
    ((.text name, v) :: entries, h)

end

end Lisplet
