import Lisplet.Proofs.Tables

/-!
Finding again what was set. NaN is equal to itself as a key, but a list is compared with another
item by item and strictly, so a list with NaN somewhere in it is not. Of all values these lists
alone are lost as keys: what is set under one is never found, and setting it again adds an entry.
-/

namespace Lisplet

theorem Number.beq_self (x : Number) : (x == x) = !x.isNaN := by
  rw [Bool.eq_iff_iff, Float.beq_iff_ne_nan_and_eq, Float.isNaN_eq_decide_eq_nan]
  simp

theorem Function.same_self (f : Function) : f.same f = true := by
  cases f <;> simp [same]

namespace Value

mutual

/-- The value is NaN, or a list in which NaN stands somewhere. -/
def holdsNaN : Value → Bool
  | number x => x.isNaN
  | list items => anyHoldsNaN items
  | _ => false

def anyHoldsNaN : List Value → Bool
  | [] => false
  | v :: vs => holdsNaN v || anyHoldsNaN vs

end

/-- NaN stands somewhere inside a list. -/
def hidesNaN : Value → Bool
  | list items => anyHoldsNaN items
  | _ => false

mutual

theorem same_self (v : Value) : v.same v = !v.holdsNaN := by
  cases v with
  | number x => exact Number.beq_self x
  | list items => exact sameAll_self items
  | function f => exact f.same_self
  | _ => simp [same, holdsNaN]

theorem sameAll_self (vs : List Value) : sameAll vs vs = !anyHoldsNaN vs := by
  cases vs with
  | nil => rfl
  | cons v vs => rw [sameAll, anyHoldsNaN, same_self v, sameAll_self vs, Bool.not_or]

end

/-- A key is itself unless it is a list with NaN in it. -/
theorem sameKey_self (v : Value) : v.sameKey v = !v.hidesNaN := by
  rw [sameKey_eq, same_self]
  cases v <;> simp [holdsNaN, hidesNaN, isNaN]

/-- A key that is not itself is no other key either. -/
theorem sameKey_of_hidesNaN {key : Value} (h : key.hidesNaN = true) (k : Value) :
    k.sameKey key = false := by
  rw [Bool.eq_false_iff]
  intro hk
  have hself := sameKey_trans (sameKey_comm k key ▸ hk) hk
  rw [sameKey_self, h] at hself
  cases hself

end Value

namespace Table

/-- Whatever is set under the key is found there, and setting it again adds no entry. -/
structure Keeps (t : Table) (key : Value) : Prop where
  get?_set (value : Value) : (t.set key value).get? key = some value
  has_set (value : Value) : (t.set key value).has key = true
  length_set_set (value further : Value) :
    ((t.set key value).set key further).length = (t.set key value).length

variable {key : Value}

theorem keeps_of_hidesNaN_false (t : Table) (h : key.hidesNaN = false) : t.Keeps key := by
  have hself : key.sameKey key = true := by rw [Value.sameKey_self, h, Bool.not_false]
  have hget (value : Value) : (t.set key value).get? key = some value := by
    rw [get?_set, if_pos hself]
  have hhas (value : Value) : (t.set key value).has key = true := by
    rw [has_eq_isSome, hget, Option.isSome_some]
  refine ⟨hget, hhas, fun value further => ?_⟩
  simpa [keys] using congrArg List.length (keys_set_of_has (hhas value) further)

/-- No table has such a key, not even one in which it was just set. -/
theorem has_of_hidesNaN (t : Table) (h : key.hidesNaN = true) : t.has key = false :=
  has_eq_false_iff.2 fun k _ => Value.sameKey_of_hidesNaN h k

theorem get?_of_hidesNaN (t : Table) (h : key.hidesNaN = true) : t.get? key = none := by
  have hhas := t.has_of_hidesNaN h
  rwa [has_eq_isSome, Option.isSome_eq_false_iff, Option.isNone_iff_eq_none] at hhas

/-- What is set under a key is found again, in every table, exactly if the key has no NaN inside a
list. Under any other key nothing is ever found, and each setting adds an entry at the end. -/
theorem keeps_iff (t : Table) (key : Value) :
    (t.Keeps key ↔ key.hidesNaN = false) ∧
    (key.hidesNaN = true → ∀ value further,
      (t.set key value).get? key = none ∧ (t.set key value).has key = false ∧
      (t.set key value).set key further = t ++ [(key, value), (key, further)]) := by
  refine ⟨⟨fun hkeeps => ?_, t.keeps_of_hidesNaN_false⟩, fun h value further => ⟨?_, ?_, ?_⟩⟩
  · by_contra h
    rw [Bool.not_eq_false] at h
    have hfound := hkeeps.has_set .nil
    rw [has_of_hidesNaN _ h] at hfound
    cases hfound
  · exact get?_of_hidesNaN _ h
  · exact has_of_hidesNaN _ h
  · rw [set_of_not_has (has_of_hidesNaN _ h), set_of_not_has (has_of_hidesNaN _ h),
      List.append_assoc]
    rfl

/-- The list of NaN alone is lost as a key, and set twice it stands in the table twice. -/
theorem not_keeps_list_of_nan :
    let key : Value := .list [.number Number.nan]
    ¬Keeps [] key ∧ (set [] key (.bool true)).get? key = none ∧
      (set [] key (.bool true)).has key = false ∧
      ((set [] key (.bool true)).set key .nil).length = 2 := by
  intro key
  have hget : (set [] key (.bool true)).get? key = none := rfl
  refine ⟨fun hkeeps => ?_, hget, rfl, rfl⟩
  cases (hkeeps.get?_set (.bool true)).symm.trans hget

end Table

end Lisplet
