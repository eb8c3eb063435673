import Lisplet.Proofs.Retrieval

/-!
The three equalities of values. Strict equality and the equality of keys are symmetric and
transitive; what keeps them from being equivalences is NaN alone. Loose equality is symmetric too,
and between values of one kind it is the strict one. It is not transitive: zero is loosely equal to
every text that stands for it, and these texts differ from each other.
-/

namespace Lisplet.Value

variable {v w : Value}

theorem kind_eq_of_same (h : v.same w = true) : v.kind = w.kind := by
  cases v <;> cases w <;> simp [same, kind] at h ⊢

theorem sameKey_of_same (h : v.same w = true) : v.sameKey w = true := by
  rw [sameKey_eq, h, Bool.true_or]

theorem looseNumeric_comm (v w : Value) : v.looseNumeric w = w.looseNumeric v := by
  cases v with
  | number x =>
    cases w with
    | text s => rfl
    | _ => exact same_comm _ _
  | text s =>
    cases w with
    | number x => rfl
    | _ => exact same_comm _ _
  | _ => cases w <;> exact same_comm _ _

theorem loose_comm (v w : Value) : v.loose w = w.loose v := by
  cases v with
  | nil => cases w <;> rfl
  | bool a =>
    cases w with
    | bool b => exact Bool.beq_comm
    | _ => rfl
  | _ =>
    cases w with
    | nil => rfl
    | bool b => rfl
    | _ =>
      simp only [loose]
      exact looseNumeric_comm _ _

/-- Between values of one kind there is nothing to convert. -/
theorem loose_of_kind_eq (h : v.kind = w.kind) : v.loose w = v.same w := by
  cases v <;> cases w <;> simp [kind] at h <;> rfl

theorem loose_of_same (h : v.same w = true) : v.loose w = true := by
  rw [loose_of_kind_eq (kind_eq_of_same h), h]

/-- Strict equality and the equality of keys are symmetric and transitive, loose equality is
symmetric, and strict equality is the narrowest of the three. A value is its own key exactly if no
list in it has NaN in it. -/
theorem equalities_lawful :
    ((∀ v w, same v w = same w v) ∧
      ∀ u v w, same u v = true → same v w = true → same u w = true) ∧
    ((∀ v w, sameKey v w = sameKey w v) ∧
      ∀ u v w, sameKey u v = true → sameKey v w = true → sameKey u w = true) ∧
    (∀ v w, loose v w = loose w v) ∧
    (∀ v w, same v w = true → sameKey v w = true ∧ loose v w = true) ∧
    ∀ v, sameKey v v = true ↔ hidesNaN v = false := by
  refine ⟨⟨same_comm, fun _ _ _ => same_trans⟩, ⟨sameKey_comm, fun _ _ _ => sameKey_trans⟩,
    loose_comm, fun _ _ h => ⟨sameKey_of_same h, loose_of_same h⟩, fun v => ?_⟩
  rw [sameKey_self, Bool.not_eq_true']

theorem equalities_lawful_zeros :
    let zero := list [number 0, list [text "a", table 3]]
    let minus := list [number (-0), list [text "a", table 3]]
    same zero minus = true ∧ sameKey zero minus = true ∧ loose zero minus = true ∧
      same zero zero = true ∧ sameKey zero zero = true ∧
      sameKey (number Number.nan) (number Number.nan) = true := by
  intro zero minus
  obtain ⟨⟨-, hsame⟩, ⟨-, hkey⟩, -, hnarrow, hself⟩ := equalities_lawful
  have hzero : same zero minus = true := by decide
  have hminus : same minus zero = true := by decide
  obtain ⟨hzeroKey, hloose⟩ := hnarrow zero minus hzero
  exact ⟨hzero, hzeroKey, hloose, hsame zero minus zero hzero hminus,
    hkey zero minus zero hzeroKey (hnarrow minus zero hminus).1, (hself _).2 rfl⟩

example : loose (text "") (number 0) = true ∧ loose (number 0) (text "0") = true ∧
    loose (text "") (text "0") = false := by decide

end Lisplet.Value
