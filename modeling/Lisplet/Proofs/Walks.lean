import Lisplet.Proofs.Likeness
import Mathlib.Data.Finset.Card
import Mathlib.Logic.Relation

/-!
Walks through tables. The text and the document of a value are found by walking from tables to what
they hold, and a table is never opened inside itself. The levels that a walk counts down are more
than there are tables to open, so they never run out: texts and documents obey equations in which no
levels occur, and what holds of a table as soon as it holds of all tables inside is proved along the
walk.
-/

namespace Lisplet

/-- The table is the value, or stands in it through lists. -/
inductive Value.Contains (id : TableId) : Value → Prop
  | self : Contains id (.table id)
  | item {items : List Value} {v : Value} (hv : v ∈ items) (h : Contains id v) :
      Contains id (.list items)

namespace Heap

variable (h : Heap)

/-- One step into a value: from a list to an item, from a table to a value and, where keys count, to
a key. -/
inductive Leads (keys : Bool) : Value → Value → Prop
  | item {items : List Value} {v : Value} (hv : v ∈ items) : Leads keys (.list items) v
  | key {id : TableId} {e : Value × Value} (hk : keys = true) (he : e ∈ h.get id) :
      Leads keys (.table id) e.1
  | value {id : TableId} {e : Value × Value} (he : e ∈ h.get id) : Leads keys (.table id) e.2

variable {h}

theorem leads_of_contains {keys : Bool} {id : TableId} {v : Value} (hv : v.Contains id) :
    Relation.ReflTransGen (h.Leads keys) v (.table id) := by
  induction hv with
  | self => exact .refl
  | item hmem _ ih => exact .head (.item hmem) ih

/-- From a table to the tables in one of its values. -/
theorem leads_of_value {keys : Bool} {id other : TableId} {e : Value × Value} (he : e ∈ h.get id)
    (hv : e.2.Contains other) : Relation.TransGen (h.Leads keys) (.table id) (.table other) :=
  .head' (.value he) (leads_of_contains hv)

theorem leads_of_key {id other : TableId} {e : Value × Value} (he : e ∈ h.get id)
    (hk : e.1.Contains other) : Relation.TransGen (h.Leads true) (.table id) (.table other) :=
  .head' (.key rfl he) (leads_of_contains hk)

variable (h)

/-! What is left to open. -/

/-- How many tables of the heap are not among the open ones. -/
def unopened (within : List TableId) : Nat :=
  ((Finset.range h.size).filter (· ∉ within)).card

theorem unopened_le (within : List TableId) : h.unopened within ≤ h.size := by
  have hle := Finset.card_filter_le (Finset.range h.size) (· ∉ within)
  rwa [Finset.card_range] at hle

theorem unopened_cons_lt {within : List TableId} {id : TableId} (hid : id < h.size)
    (hw : id ∉ within) : h.unopened (id :: within) < h.unopened within := by
  refine Finset.card_lt_card ((Finset.ssubset_iff_of_subset ?_).2 ⟨id, ?_, ?_⟩)
  · intro other hother
    simp only [Finset.mem_filter, List.mem_cons, not_or] at hother ⊢
    exact ⟨hother.1, hother.2.2⟩
  · simp [hid, hw]
  · simp

/-- Opening a table that holds anything leaves fewer to open. -/
theorem unopened_lt_of_entry {within : List TableId} {id : TableId} (hw : id ∉ within)
    {e : Value × Value} (he : e ∈ h.get id) : h.unopened (id :: within) < h.unopened within := by
  refine h.unopened_cons_lt (Nat.lt_of_not_le fun hid => ?_) hw
  rw [get_of_size_le hid] at he
  cases he

/-- What holds of the open tables, and of any other as soon as it holds of all tables once that one
is open, holds of every table. -/
theorem walk_induct {P : List TableId → TableId → Prop}
    (marked : ∀ within id, id ∈ within → P within id)
    (opened : ∀ within id, id ∉ within → (∀ e ∈ h.get id, ∀ other, P (id :: within) other) →
      P within id) (within : List TableId) (id : TableId) : P within id := by
  induction hn : h.unopened within using Nat.strongRecOn generalizing within id with
  | _ n ih =>
    by_cases hid : id ∈ within
    · exact marked within id hid
    · refine opened within id hid fun e he other => ih _ ?_ _ other rfl
      rw [← hn]
      exact h.unopened_lt_of_entry hid he

section Levels

variable {β : Type} (walk : Nat → List TableId → TableId → β) (stop : β)
  (full : (TableId → β) → List TableId → Table → β)
  (hsucc : ∀ levels within id, walk (levels + 1) within id =
    if id ∈ within then stop else full (walk levels (id :: within)) (id :: within) (h.get id))
  (hempty : ∀ f g within, full f within [] = full g within [])

include hsucc hempty

/-- Levels beyond the number of tables left to open make no difference. -/
theorem walk_levels (levels levels' : Nat) {within : List TableId}
    (hl : h.unopened within < levels) (hl' : h.unopened within < levels') :
    walk levels within = walk levels' within := by
  induction levels generalizing levels' within with
  | zero => omega
  | succ levels ih =>
    obtain ⟨more, rfl⟩ : ∃ more, levels' = more + 1 := ⟨levels' - 1, by omega⟩
    funext id
    rw [hsucc, hsucc]
    split
    · rfl
    · rename_i hid
      cases hget : h.get id with
      | nil => exact hempty _ _ _
      | cons e t =>
        have he : e ∈ h.get id := by simp [hget]
        have hlt := h.unopened_lt_of_entry hid he
        rw [ih more (by omega) (by omega)]

theorem walk_unfold (within : List TableId) (id : TableId) :
    walk (h.size + 2) within id =
      if id ∈ within then stop
      else full (walk (h.size + 2) (id :: within)) (id :: within) (h.get id) := by
  have hle := h.unopened_le (id :: within)
  rw [hsucc, h.walk_levels walk stop full hsucc hempty _ (h.size + 2) (by omega) (by omega)]

end Levels

/-! Texts. -/

def entryText (table : TableId → String) (e : Value × Value) : String :=
  e.1.render table false ++ " " ++ e.2.render table true

def fullText (table : TableId → String) (t : Table) : String :=
  "\x7b" ++ ", ".intercalate (t.map (entryText table)) ++ "\x7d"

def tableText (within : List TableId) (id : TableId) : String :=
  h.renderTable (h.size + 2) within id

theorem tableText_eq (within : List TableId) (id : TableId) :
    h.tableText within id =
      if id ∈ within then ellipsis else fullText (h.tableText (id :: within)) (h.get id) := by
  refine h.walk_unfold h.renderTable ellipsis (fun inner _ t => fullText inner t) ?_
    (fun _ _ _ => rfl) within id
  intro levels within id
  simp only [renderTable, List.contains_iff_mem]
  rfl

theorem displayWithin_eq (within : List TableId) (v : Value) :
    h.displayWithin within v = v.render (h.tableText within) false := rfl

/-! Documents. -/

/-- The document of a table inside those of the open ones. -/
def tableJson? (within : List TableId) (id : TableId) : Option Json :=
  h.jsonOfTable? (h.size + 2) within id

def jsonWithin? (within : List TableId) (v : Value) : Option Json :=
  Json.ofValue? (h.tableJson? within) v

theorem tableJson?_eq (within : List TableId) (id : TableId) :
    h.tableJson? within id =
      if id ∈ within then none
      else (Json.setMembers (h.jsonWithin? (id :: within)) (h.displayWithin (id :: within)) []
        (h.get id)).map .object := by
  refine h.walk_unfold h.jsonOfTable? none (fun inner within t =>
    (Json.setMembers (Json.ofValue? inner) (h.displayWithin within) [] t).map .object) ?_
    (fun _ _ _ => rfl) within id
  intro levels within id
  simp only [jsonOfTable?, List.contains_iff_mem]

theorem json?_eq (v : Value) : h.json? v = h.jsonWithin? [] v := rfl

end Heap

end Lisplet
