import Lisplet.Value.Basic

/-!
Tables keep their entries in the order in which the keys came in; a key that is set again keeps its
place. The heap holds every table made so far under its number.
-/

namespace Lisplet

abbrev Table := List (Value × Value)

namespace Table

def get? : Table → Value → Option Value
  | [], _ => none
  | (k, v) :: entries, key => if k.sameKey key then some v else get? entries key

def has (t : Table) (key : Value) : Bool := t.any fun (k, _) => k.sameKey key

def set : Table → Value → Value → Table
  | [], key, value => [(key, value)]
  | (k, v) :: entries, key, value =>
    if k.sameKey key then (k, value) :: entries else (k, v) :: set entries key value

def erase : Table → Value → Table
  | [], _ => []
  | (k, v) :: entries, key => if k.sameKey key then entries else (k, v) :: erase entries key

def keys (t : Table) : List Value := t.map Prod.fst

def values (t : Table) : List Value := t.map Prod.snd

/-- The table of a sequence of settings, the first setting first. -/
def ofEntries (entries : List (Value × Value)) : Table :=
  entries.foldl (fun t (k, v) => t.set k v) []

/-- Keys and values by turns; a key without a value has nil. -/
def pairUp : List Value → List (Value × Value)
  | [] => []
  | [k] => [(k, .nil)]
  | k :: v :: rest => (k, v) :: pairUp rest

def ofFlat (items : List Value) : Table := ofEntries (pairUp items)

end Table

structure Heap where
  tables : Array Table

namespace Heap

def empty : Heap := ⟨#[]⟩

def size (h : Heap) : Nat := h.tables.size

def get (h : Heap) (id : TableId) : Table := h.tables.getD id []

/-- The heap with one more table, whose number is the size before. -/
def push (h : Heap) (t : Table) : Heap := ⟨h.tables.push t⟩

def put (h : Heap) (id : TableId) (t : Table) : Heap := ⟨h.tables.setIfInBounds id t⟩

end Heap

end Lisplet
