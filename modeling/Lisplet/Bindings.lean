import Lisplet.Value.Basic

/-!
Names bound to values, each name at most once. Both the globals and the scope of a call are
bindings.
-/

namespace Lisplet

/-- A name bound twice in the list has the value that stands first. -/
structure Bindings where
  entries : List (String × Value)

namespace Bindings

def empty : Bindings := ⟨[]⟩

def find : List (String × Value) → String → Option Value
  | [], _ => none
  | (n, v) :: rest, name => if n = name then some v else find rest name

def get? (b : Bindings) (name : String) : Option Value := find b.entries name

def contains (b : Bindings) (name : String) : Bool := b.entries.any (·.1 = name)

def replace (name : String) (value : Value) : List (String × Value) → List (String × Value)
  | [] => []
  | (n, v) :: rest => if n = name then (n, value) :: rest else (n, v) :: replace name value rest

/-- Binds a name anew, in place of what it was bound to before. -/
def insert (b : Bindings) (name : String) (value : Value) : Bindings :=
  ⟨if b.contains name then replace name value b.entries else (name, value) :: b.entries⟩

/-- Further bindings on top, the later of two for one name winning. -/
def layer (b : Bindings) (more : List (String × Value)) : Bindings :=
  more.foldl (fun b (name, value) => b.insert name value) b

def size (b : Bindings) : Nat := b.entries.length

/-- The bound names in order. -/
def names (b : Bindings) : List String := (b.entries.map Prod.fst).mergeSort (· ≤ ·)

theorem find_replace (name : String) (value : Value) (entries : List (String × Value))
    (other : String) :
    find (replace name value entries) other =
      if other = name ∧ entries.any (·.1 = name) then some value else find entries other := by
  induction entries with
  | nil => simp [replace, find]
  | cons e rest ih =>
    obtain ⟨n, v⟩ := e
    by_cases hn : n = name <;> by_cases ho : n = other <;> simp_all [replace, find]
    all_goals grind

theorem find_isSome (entries : List (String × Value)) (name : String) :
    (find entries name).isSome = entries.any (·.1 = name) := by
  induction entries with
  | nil => rfl
  | cons e rest ih => by_cases h : e.1 = name <;> simp [find, h, ih]

@[simp] theorem get?_empty (name : String) : empty.get? name = none := rfl

theorem get?_insert (b : Bindings) (name other : String) (value : Value) :
    (b.insert name value).get? other = if other = name then some value else b.get? other := by
  unfold insert get?
  by_cases h : b.contains name
  · simp only [h, if_true, find_replace]
    by_cases ho : other = name <;> simp_all [contains]
  · by_cases ho : other = name
    · subst ho
      simp [h, find]
    · simp [h, find, ho, Ne.symm ho]

theorem contains_eq (b : Bindings) (name : String) : b.contains name = (b.get? name).isSome := by
  simp [contains, get?, find_isSome]

end Bindings

end Lisplet
