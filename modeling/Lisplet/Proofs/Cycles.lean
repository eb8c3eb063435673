import Lisplet.Proofs.Plans
import Lisplet.Proofs.Sketches
import Mathlib

/-!
Documents of values, and the cycles that have none. A conversion walks through items and values and
marks the tables on its way; a marked table ends it. Whatever comes of it, the marks are taken back.
There is no document exactly if a table that contains itself can be come to, and otherwise there is
one, which is found without marks: a table that is only shared is converted wherever it stands.
-/

namespace Lisplet

/-- The document of a value that is neither a list nor a table. -/
def Json.ofSimple (v : Value) : Json := (Json.ofValue? (fun _ => none) v).getD .null

mutual

/-- Making documents of values one after another, with the tables that are marked as open before and
after. The first value that has none ends it. -/
inductive Heap.Converts (h : Heap) :
    List TableId → List Value → Option (List Json) → List TableId → Prop
  | nil (marks : List TableId) : Converts h marks [] (some []) marks
  | simple {marks marks' : List TableId} {v : Value} {vs : List Value} {r : Option (List Json)}
      (hv : v.isSimple = true) (hvs : Converts h marks vs r marks') :
      Converts h marks (v :: vs) (r.map (Json.ofSimple v :: ·)) marks'
  | list {marks marks' marks'' : List TableId} {items vs : List Value} {js : List Json}
      {r : Option (List Json)} (hitems : Converts h marks items (some js) marks')
      (hvs : Converts h marks' vs r marks'') :
      Converts h marks (.list items :: vs) (r.map (.array js :: ·)) marks''
  | listFails {marks marks' : List TableId} {items vs : List Value}
      (hitems : Converts h marks items none marks') :
      Converts h marks (.list items :: vs) none marks'
  | marked {marks : List TableId} {id : TableId} {vs : List Value} (hid : id ∈ marks) :
      Converts h marks (.table id :: vs) none marks
  | opened {marks marks' marks'' : List TableId} {id : TableId} {vs : List Value}
      {members : List (String × Json)} {r : Option (List Json)} (hid : id ∉ marks)
      (hentries : ConvertsEntries h (id :: marks) [] (h.get id) (some members) marks')
      (hvs : Converts h (marks'.erase id) vs r marks'') :
      Converts h marks (.table id :: vs) (r.map (.object members :: ·)) marks''
  | openedFails {marks marks' : List TableId} {id : TableId} {vs : List Value} (hid : id ∉ marks)
      (hentries : ConvertsEntries h (id :: marks) [] (h.get id) none marks') :
      Converts h marks (.table id :: vs) none (marks'.erase id)

/-- Setting members for the entries of an open table, each name the text of a key. -/
inductive Heap.ConvertsEntries (h : Heap) : List TableId → List (String × Json) → Table →
    Option (List (String × Json)) → List TableId → Prop
  | nil (marks : List TableId) (members : List (String × Json)) :
      ConvertsEntries h marks members [] (some members) marks
  | cons {marks marks' marks'' marks''' : List TableId} {key value : Value} {t : Table}
      {members : List (String × Json)} {s : Sketch} {j : Json}
      {r : Option (List (String × Json))} (hkey : h.Draws marks [key] [s] marks')
      (hvalue : Converts h marks' [value] (some [j]) marks'')
      (ht : ConvertsEntries h marks'' (Json.setMember members (s.text false) j) t r marks''') :
      ConvertsEntries h marks members ((key, value) :: t) r marks'''
  | fails {marks marks' marks'' : List TableId} {key value : Value} {t : Table}
      {members : List (String × Json)} {s : Sketch} (hkey : h.Draws marks [key] [s] marks')
      (hvalue : Converts h marks' [value] none marks'') :
      ConvertsEntries h marks members ((key, value) :: t) none marks''

end

theorem Json.ofValue?_simple {v : Value} (hv : v.isSimple = true) (table : TableId → Option Json) :
    Json.ofValue? table v = some (Json.ofSimple v) := by
  cases v with
  | list items => cases hv
  | table id => cases hv
  | _ => rfl

theorem Json.ofValues?_cons (table : TableId → Option Json) (v : Value) (vs : List Value) :
    Json.ofValues? table (v :: vs) =
      (Json.ofValue? table v).bind fun j => (Json.ofValues? table vs).map (j :: ·) := by
  rw [ofValues?]
  cases ofValue? table v <;> cases ofValues? table vs <;> rfl

theorem Json.ofValues?_cons_eq_some {table : TableId → Option Json} {v : Value} {vs : List Value}
    {js : List Json} (h : Json.ofValues? table (v :: vs) = some js) :
    ∃ j js', Json.ofValue? table v = some j ∧ Json.ofValues? table vs = some js' ∧
      js = j :: js' := by
  rw [ofValues?_cons, Option.bind_eq_some_iff] at h
  obtain ⟨j, hj, h⟩ := h
  obtain ⟨js', hjs', rfl⟩ := Option.map_eq_some_iff.1 h
  exact ⟨j, js', hj, hjs', rfl⟩

theorem Json.ofValues?_singleton (table : TableId → Option Json) (v : Value) :
    Json.ofValues? table [v] = (Json.ofValue? table v).map fun j => [j] := by
  rw [ofValues?_cons]
  cases ofValue? table v <;> rfl

theorem Json.setMembers_cons (value : Value → Option Json) (name : Value → String)
    (members : List (String × Json)) (k v : Value) (t : Table) :
    Json.setMembers value name members ((k, v) :: t) =
      (value v).bind fun j => Json.setMembers value name (Json.setMember members (name k) j) t := by
  rw [setMembers]
  cases value v <;> rfl

namespace Heap

variable {h : Heap}

theorem Draws.text_eq {marks marks' : List TableId} {v : Value} {s : Sketch}
    (hd : h.Draws marks [v] [s] marks') : s.text false = h.displayWithin marks v := by
  have hvalue := List.singleton_injective hd.value_eq
  rw [(hd.cutsCycles s (by simp)).text_eq, hvalue, displayWithin_eq]

/-- Every mark is taken back, also when there is no document. -/
theorem Converts.eq {marks marks' : List TableId} {vs : List Value} {r : Option (List Json)}
    (hc : h.Converts marks vs r marks') :
    marks' = marks ∧ r = Json.ofValues? (h.tableJson? marks) vs := by
  refine @Converts.rec h
    (fun marks vs r marks' _ => marks' = marks ∧ r = Json.ofValues? (h.tableJson? marks) vs)
    (fun marks members t r marks' _ => marks' = marks ∧
      r = Json.setMembers (h.jsonWithin? marks) (h.displayWithin marks) members t)
    ?_ ?_ ?_ ?_ ?_ ?_ ?_ ?_ ?_ ?_ marks vs r marks' hc
  · exact fun marks => ⟨rfl, rfl⟩
  · rintro marks marks' v vs r hv - ⟨rfl, rfl⟩
    exact ⟨rfl, by rw [Json.ofValues?_cons, Json.ofValue?_simple hv, Option.bind_some]⟩
  · rintro marks marks' marks'' items vs js r - - ⟨rfl, hitems⟩ ⟨rfl, rfl⟩
    refine ⟨rfl, ?_⟩
    rw [Json.ofValues?_cons, Json.ofValue?, ← hitems, Option.map_some, Option.bind_some]
  · rintro marks marks' items vs - ⟨rfl, hitems⟩
    refine ⟨rfl, ?_⟩
    rw [Json.ofValues?_cons, Json.ofValue?, ← hitems, Option.map_none, Option.bind_none]
  · intro marks id vs hid
    refine ⟨rfl, ?_⟩
    rw [Json.ofValues?_cons, Json.ofValue?, h.tableJson?_eq, if_pos hid, Option.bind_none]
  · rintro marks marks' marks'' id vs members r hid - - ⟨rfl, hentries⟩ ⟨rfl, rfl⟩
    rw [List.erase_cons_head]
    refine ⟨rfl, ?_⟩
    rw [Json.ofValues?_cons, Json.ofValue?, h.tableJson?_eq, if_neg hid, ← hentries,
      Option.map_some, Option.bind_some]
  · rintro marks marks' id vs hid - ⟨rfl, hentries⟩
    rw [List.erase_cons_head]
    refine ⟨rfl, ?_⟩
    rw [Json.ofValues?_cons, Json.ofValue?, h.tableJson?_eq, if_neg hid, ← hentries,
      Option.map_none, Option.bind_none]
  · exact fun marks members => ⟨rfl, rfl⟩
  · rintro marks marks' marks'' marks₃ key value t members s j r hkey - - ⟨rfl, hvalue⟩ ⟨rfl, rfl⟩
    rw [Json.ofValues?_singleton, eq_comm, Option.map_eq_some_iff] at hvalue
    obtain ⟨j', hj', hjs⟩ := hvalue
    cases hjs
    rw [hkey.marks_eq] at hj' ⊢
    refine ⟨rfl, ?_⟩
    rw [Json.setMembers_cons, jsonWithin?, hj', Option.bind_some, hkey.text_eq]
  · rintro marks marks' marks'' key value t members s hkey - ⟨rfl, hvalue⟩
    rw [Json.ofValues?_singleton, eq_comm, Option.map_eq_none_iff] at hvalue
    rw [hkey.marks_eq] at hvalue ⊢
    refine ⟨rfl, ?_⟩
    rw [Json.setMembers_cons, jsonWithin?, hvalue, Option.bind_none]

/-- Values can be converted, or refused, as soon as tables can. -/
theorem converts_of_tables {marks : List TableId}
    (htables : ∀ id vs r, h.Converts marks vs r marks → h.Converts marks (.table id :: vs)
      ((h.tableJson? marks id).bind fun j => r.map (j :: ·)) marks) (vs : List Value) :
    h.Converts marks vs (Json.ofValues? (h.tableJson? marks) vs) marks := by
  match vs with
  | [] => exact .nil marks
  | v :: rest =>
    have hrest := converts_of_tables htables rest
    rw [Json.ofValues?_cons]
    by_cases hv : v.isSimple = true
    · rw [Json.ofValue?_simple hv]
      exact .simple hv hrest
    · match v with
      | .list items =>
        have hitems := converts_of_tables htables items
        rw [Json.ofValue?]
        cases hr : Json.ofValues? (h.tableJson? marks) items with
        | none =>
          rw [hr] at hitems
          exact .listFails hitems
        | some js =>
          rw [hr] at hitems
          exact .list hitems hrest
      | .table id => exact htables id rest _ hrest
      | .nil | .bool _ | .number _ | .text _ | .function _ => exact absurd rfl hv
termination_by sizeOf vs

theorem convertsEntries_of_values {marks : List TableId} {t : Table}
    (hvalues : ∀ e ∈ t, h.Converts marks [e.2] (Json.ofValues? (h.tableJson? marks) [e.2]) marks)
    (members : List (String × Json)) :
    h.ConvertsEntries marks members t
      (Json.setMembers (h.jsonWithin? marks) (h.displayWithin marks) members t) marks := by
  induction t generalizing members with
  | nil => exact .nil marks members
  | cons e t ih =>
    obtain ⟨key, value⟩ := e
    obtain ⟨hvalue, ht⟩ := List.forall_mem_cons.1 hvalues
    obtain ⟨s, hs, -⟩ := h.exists_sketch marks key
    have hkey := (hs s marks).2 ⟨rfl, rfl⟩
    rw [Json.ofValues?_singleton] at hvalue
    rw [Json.setMembers_cons, jsonWithin?]
    cases hj : Json.ofValue? (h.tableJson? marks) value with
    | none =>
      rw [hj] at hvalue
      exact .fails hkey hvalue
    | some j =>
      rw [hj] at hvalue
      rw [Option.bind_some, ← hkey.text_eq]
      exact .cons hkey hvalue (ih ht _)

theorem converts (h : Heap) (marks : List TableId) (vs : List Value) :
    h.Converts marks vs (Json.ofValues? (h.tableJson? marks) vs) marks := by
  refine converts_of_tables (fun id => ?_) vs
  refine h.walk_induct (P := fun marks id => ∀ vs r, h.Converts marks vs r marks →
    h.Converts marks (.table id :: vs) ((h.tableJson? marks id).bind fun j => r.map (j :: ·)) marks)
    ?_ ?_ marks id
  · intro marks id hid vs r _
    rw [h.tableJson?_eq, if_pos hid]
    exact .marked hid
  · intro marks id hid hinside vs r hvs
    have hentries := convertsEntries_of_values
      (fun e he => converts_of_tables (hinside e he) [e.2]) ([] : List (String × Json))
    rw [h.tableJson?_eq, if_neg hid]
    cases hr : Json.setMembers (h.jsonWithin? (id :: marks)) (h.displayWithin (id :: marks)) []
      (h.get id) with
    | none =>
      rw [hr] at hentries
      have hfails : h.Converts marks (.table id :: vs) none ((id :: marks).erase id) :=
        .openedFails hid hentries
      rwa [List.erase_cons_head] at hfails
    | some members =>
      rw [hr] at hentries
      refine .opened hid hentries ?_
      rw [List.erase_cons_head]
      exact hvs

theorem converts_iff {marks marks' : List TableId} {v : Value} {r : Option (List Json)} :
    h.Converts marks [v] r marks' ↔
      r = (h.jsonWithin? marks v).map (fun j => [j]) ∧ marks' = marks := by
  rw [jsonWithin?, ← Json.ofValues?_singleton]
  constructor
  · intro hc
    exact ⟨hc.eq.2, hc.eq.1⟩
  · rintro ⟨rfl, rfl⟩
    exact h.converts marks' [v]

end Heap

/-! What has no document. -/

/-- Members set one after another, a name that comes again keeping its first place. -/
def Json.gather (members : List (String × Json)) (names : List String) (js : List Json) :
    List (String × Json) :=
  (names.zip js).foldl (fun members e => Json.setMember members e.1 e.2) members

/-- The members of a table are the documents of its values under the texts of its keys. -/
theorem Json.setMembers_eq (table : TableId → Option Json) (name : Value → String)
    (members : List (String × Json)) (t : Table) :
    Json.setMembers (Json.ofValue? table) name members t =
      (Json.ofValues? table t.values).map (Json.gather members (t.keys.map name)) := by
  induction t generalizing members with
  | nil => rfl
  | cons e t ih =>
    obtain ⟨k, v⟩ := e
    have hvalues : Table.values ((k, v) :: t) = v :: Table.values t := rfl
    rw [setMembers_cons, hvalues, ofValues?_cons]
    cases ofValue? table v with
    | none => rfl
    | some j =>
      rw [Option.bind_some, Option.bind_some, ih, Option.map_map]
      rfl

theorem Json.ofValues?_eq_none_iff {table : TableId → Option Json} {vs : List Value} :
    Json.ofValues? table vs = none ↔ ∃ v ∈ vs, Json.ofValue? table v = none := by
  induction vs with
  | nil => simp [ofValues?]
  | cons v vs ih =>
    rw [ofValues?_cons]
    cases hv : ofValue? table v with
    | none => simp [hv]
    | some j => simp [hv, ih]

theorem Json.ofValue?_eq_none_iff {table : TableId → Option Json} {v : Value} :
    Json.ofValue? table v = none ↔ ∃ id, v.Contains id ∧ table id = none := by
  match v with
  | .list items =>
    rw [ofValue?, Option.map_eq_none_iff, ofValues?_eq_none_iff]
    constructor
    · rintro ⟨v, hv, hnone⟩
      have hlt := List.sizeOf_lt_of_mem hv
      obtain ⟨id, hid, htable⟩ := ofValue?_eq_none_iff.1 hnone
      exact ⟨id, .item hv hid, htable⟩
    · rintro ⟨id, hid, htable⟩
      cases hid with
      | item hv hid =>
        have hlt := List.sizeOf_lt_of_mem hv
        exact ⟨_, hv, ofValue?_eq_none_iff.2 ⟨id, hid, htable⟩⟩
  | .table id =>
    refine ⟨fun hnone => ⟨id, .self, hnone⟩, ?_⟩
    rintro ⟨other, hother, htable⟩
    cases hother
    exact htable
  | .nil | .bool _ | .number _ | .text _ | .function _ =>
    refine ⟨fun hnone => (by cases hnone), ?_⟩
    rintro ⟨id, hid, -⟩
    cases hid
termination_by sizeOf v

namespace Heap

variable {h : Heap}

/-- A table that leads back to itself, through items and values, can be come to from the value. -/
def CyclicFrom (h : Heap) (v : Value) : Prop :=
  ∃ id, Relation.ReflTransGen (h.Leads false) v (.table id) ∧
    Relation.TransGen (h.Leads false) (.table id) (.table id)

theorem CyclicFrom.head {v w : Value} (hvw : Relation.ReflTransGen (h.Leads false) v w)
    (hw : h.CyclicFrom w) : h.CyclicFrom v := by
  obtain ⟨id, hid, hcycle⟩ := hw
  exact ⟨id, hvw.trans hid, hcycle⟩

/-- The document of a table that is not open. -/
theorem tableJson?_of_notMem {marks : List TableId} {id : TableId} (hid : id ∉ marks) :
    h.tableJson? marks id =
      (Json.ofValues? (h.tableJson? (id :: marks)) (h.get id).values).map fun js =>
        .object (Json.gather [] ((h.get id).keys.map (h.displayWithin (id :: marks))) js) := by
  have hvalue : h.jsonWithin? (id :: marks) = Json.ofValue? (h.tableJson? (id :: marks)) := rfl
  rw [h.tableJson?_eq, if_neg hid, hvalue, Json.setMembers_eq, Option.map_map]
  rfl

/-- A table that is not open is refused because of a table in one of its values. -/
theorem tableJson?_eq_none_iff {marks : List TableId} {id : TableId} (hid : id ∉ marks) :
    h.tableJson? marks id = none ↔
      ∃ e ∈ h.get id, ∃ other, e.2.Contains other ∧ h.tableJson? (id :: marks) other = none := by
  rw [tableJson?_of_notMem hid, Option.map_eq_none_iff, Json.ofValues?_eq_none_iff, Table.values]
  simp only [List.mem_map, exists_exists_and_eq_and, Json.ofValue?_eq_none_iff]

/-- A table is refused only on account of a cycle. -/
theorem cyclicFrom_of_none (marks : List TableId) (id : TableId)
    (hmarks : ∀ m ∈ marks, Relation.TransGen (h.Leads false) (.table m) (.table id))
    (hnone : h.tableJson? marks id = none) : h.CyclicFrom (.table id) := by
  refine h.walk_induct (P := fun marks id =>
    (∀ m ∈ marks, Relation.TransGen (h.Leads false) (.table m) (.table id)) →
    h.tableJson? marks id = none → h.CyclicFrom (.table id)) ?_ ?_ marks id hmarks hnone
  · intro marks id hid hmarks _
    exact ⟨id, .refl, hmarks id hid⟩
  · intro marks id hid hinside hmarks hnone
    obtain ⟨e, he, other, hother, hnone'⟩ := (tableJson?_eq_none_iff hid).1 hnone
    have hstep : Relation.TransGen (h.Leads false) (.table id) (.table other) :=
      leads_of_value he hother
    refine .head hstep.to_reflTransGen (hinside e he other ?_ hnone')
    exact List.forall_mem_cons.2 ⟨hstep, fun m hm => (hmarks m hm).trans hstep⟩

/-- From the value only finitely many steps can be taken. -/
abbrev Grounded (h : Heap) (v : Value) : Prop := Acc (fun w v => h.Leads false v w) v

theorem grounded_of_tables (v : Value) (hv : ∀ id, v.Contains id → h.Grounded (.table id)) :
    h.Grounded v := by
  match v with
  | .list items =>
    refine .intro _ fun w hw => ?_
    cases hw with
    | item hmem =>
      have hlt := List.sizeOf_lt_of_mem hmem
      exact grounded_of_tables w fun id hid => hv id (.item hmem hid)
  | .table id => exact hv id .self
  | .nil | .bool _ | .number _ | .text _ | .function _ =>
    refine .intro _ fun w hw => ?_
    cases hw
termination_by sizeOf v

/-- What has a document is made of finitely many parts. -/
theorem grounded_of_ne_none (marks : List TableId) (id : TableId)
    (hsome : h.tableJson? marks id ≠ none) : h.Grounded (.table id) := by
  refine h.walk_induct (P := fun marks id => h.tableJson? marks id ≠ none → h.Grounded (.table id))
    ?_ ?_ marks id hsome
  · intro marks id hid hsome
    rw [h.tableJson?_eq, if_pos hid] at hsome
    exact absurd rfl hsome
  · intro marks id hid hinside hsome
    rw [ne_eq, tableJson?_eq_none_iff hid] at hsome
    refine .intro _ fun w hw => ?_
    cases hw with
    | key hk => cases hk
    | value he =>
      refine grounded_of_tables _ fun other hother => hinside _ he other fun hnone => hsome ?_
      exact ⟨_, he, other, hother, hnone⟩

theorem Grounded.not_cyclicFrom {v : Value} (hv : h.Grounded v) : ¬h.CyclicFrom v := by
  induction hv with
  | intro v _ ih =>
    rintro ⟨id, hid, hcycle⟩
    -- the way to the table, gone on with around the cycle, has a first step
    have hway := Relation.TransGen.trans_right hid hcycle
    obtain ⟨w, hw, hrest⟩ := Relation.TransGen.head'_iff.1 hway
    exact ih w hw ⟨id, hrest, hcycle⟩

theorem json?_eq_none_iff (v : Value) : h.json? v = none ↔ h.CyclicFrom v := by
  rw [h.json?_eq, jsonWithin?, Json.ofValue?_eq_none_iff]
  constructor
  · rintro ⟨id, hid, hnone⟩
    exact .head (leads_of_contains hid) (cyclicFrom_of_none [] id (by simp) hnone)
  · intro hcyclic
    by_contra hsome
    push Not at hsome
    have hgrounded : h.Grounded v :=
      grounded_of_tables v fun id hid => grounded_of_ne_none [] id (hsome id hid)
    exact hgrounded.not_cyclicFrom hcyclic

/-! What has a document. -/

/-- Documents of values, a table converted wherever it stands. The open tables matter only to the
texts of keys. -/
inductive Documents (h : Heap) : List TableId → List Value → List Json → Prop
  | nil (marks : List TableId) : Documents h marks [] []
  | simple {marks : List TableId} {v : Value} {vs : List Value} {js : List Json}
      (hv : v.isSimple = true) (hvs : Documents h marks vs js) :
      Documents h marks (v :: vs) (Json.ofSimple v :: js)
  | list {marks : List TableId} {items vs : List Value} {js js' : List Json}
      (hitems : Documents h marks items js) (hvs : Documents h marks vs js') :
      Documents h marks (.list items :: vs) (.array js :: js')
  | table {marks : List TableId} {id : TableId} {vs : List Value} {js js' : List Json}
      (hvalues : Documents h (id :: marks) (h.get id).values js)
      (hvs : Documents h marks vs js') :
      Documents h marks (.table id :: vs)
        (.object (Json.gather [] ((h.get id).keys.map (h.displayWithin (id :: marks))) js) :: js')

theorem documents_nil_iff {marks : List TableId} {js : List Json} :
    h.Documents marks [] js ↔ js = [] := by
  constructor
  · intro hd
    cases hd
    rfl
  · rintro rfl
    exact .nil marks

theorem documents_simple_iff {marks : List TableId} {v : Value} (hv : v.isSimple = true)
    {vs : List Value} {js : List Json} :
    h.Documents marks (v :: vs) js ↔
      ∃ js', h.Documents marks vs js' ∧ js = Json.ofSimple v :: js' := by
  constructor
  · intro hd
    cases hd with
    | simple _ hvs => exact ⟨_, hvs, rfl⟩
    | list _ _ => cases hv
    | table _ _ => cases hv
  · rintro ⟨js', hvs, rfl⟩
    exact .simple hv hvs

theorem documents_list_iff {marks : List TableId} {items vs : List Value} {js : List Json} :
    h.Documents marks (.list items :: vs) js ↔
      ∃ js₁ js₂, h.Documents marks items js₁ ∧ h.Documents marks vs js₂ ∧
        js = .array js₁ :: js₂ := by
  constructor
  · intro hd
    cases hd with
    | simple hv _ => cases hv
    | list hitems hvs => exact ⟨_, _, hitems, hvs, rfl⟩
  · rintro ⟨js₁, js₂, hitems, hvs, rfl⟩
    exact .list hitems hvs

theorem documents_table_iff {marks : List TableId} {id : TableId} {vs : List Value}
    {js : List Json} :
    h.Documents marks (.table id :: vs) js ↔
      ∃ js₁ js₂, h.Documents (id :: marks) (h.get id).values js₁ ∧ h.Documents marks vs js₂ ∧
        js = .object (Json.gather [] ((h.get id).keys.map (h.displayWithin (id :: marks))) js₁) ::
          js₂ := by
  constructor
  · intro hd
    cases hd with
    | simple hv _ => cases hv
    | table hvalues hvs => exact ⟨_, _, hvalues, hvs, rfl⟩
  · rintro ⟨js₁, js₂, hvalues, hvs, rfl⟩
    exact .table hvalues hvs

/-- What is found of values is their one conversion, as soon as that holds of tables. -/
theorem documents_iff_of_tables {marks : List TableId} {vs : List Value} {js js' : List Json}
    (htables : ∀ id j, h.tableJson? marks id = some j → ∀ vs js,
      h.Documents marks (.table id :: vs) js ↔ ∃ js', h.Documents marks vs js' ∧ js = j :: js')
    (hjs : Json.ofValues? (h.tableJson? marks) vs = some js) :
    h.Documents marks vs js' ↔ js' = js := by
  match vs with
  | [] =>
    cases hjs
    exact documents_nil_iff
  | .list items :: rest =>
    obtain ⟨j, js, hj, hrest, rfl⟩ := Json.ofValues?_cons_eq_some hjs
    rw [Json.ofValue?, Option.map_eq_some_iff] at hj
    obtain ⟨inner, hinner, rfl⟩ := hj
    simp only [documents_list_iff, documents_iff_of_tables htables hinner,
      documents_iff_of_tables htables hrest, exists_and_left, exists_eq_left]
  | .table id :: rest =>
    obtain ⟨j, js, hj, hrest, rfl⟩ := Json.ofValues?_cons_eq_some hjs
    simp only [htables id j hj, documents_iff_of_tables htables hrest, exists_eq_left]
  | .nil :: rest | .bool _ :: rest | .number _ :: rest | .text _ :: rest | .function _ :: rest =>
    obtain ⟨j, js, hj, hrest, rfl⟩ := Json.ofValues?_cons_eq_some hjs
    rw [Json.ofValue?_simple rfl] at hj
    cases hj
    rw [documents_simple_iff rfl]
    simp only [documents_iff_of_tables htables hrest, exists_eq_left]
termination_by sizeOf vs

theorem documents_table_iff_of_some (marks : List TableId) (id : TableId) :
    ∀ j, h.tableJson? marks id = some j → ∀ vs js, h.Documents marks (.table id :: vs) js ↔
      ∃ js', h.Documents marks vs js' ∧ js = j :: js' := by
  refine h.walk_induct (P := fun marks id => ∀ j, h.tableJson? marks id = some j →
    ∀ vs js, h.Documents marks (.table id :: vs) js ↔
      ∃ js', h.Documents marks vs js' ∧ js = j :: js') ?_ ?_ marks id
  · intro marks id hid j hj
    rw [h.tableJson?_eq, if_pos hid] at hj
    cases hj
  · intro marks id hid hinside j hj vs js
    rw [tableJson?_of_notMem hid, Option.map_eq_some_iff] at hj
    obtain ⟨inner, hinner, rfl⟩ := hj
    have hvalues : ∀ js, h.Documents (id :: marks) (h.get id).values js ↔ js = inner := by
      intro js
      by_cases hempty : h.get id = []
      · rw [hempty] at hinner ⊢
        cases hinner
        exact documents_nil_iff
      · obtain ⟨e, he⟩ := List.exists_mem_of_ne_nil _ hempty
        exact documents_iff_of_tables (hinside e he) hinner
    simp only [documents_table_iff, hvalues, exists_and_left, exists_eq_left]

/-- What is found of a value is its one document. -/
theorem documents_iff {v : Value} {j j' : Json} (hj : h.json? v = some j) :
    h.Documents [] [v] [j'] ↔ j' = j := by
  have hjs : Json.ofValues? (h.tableJson? []) [v] = some [j] := by
    rw [Json.ofValues?_singleton, ← jsonWithin?, ← json?_eq, hj, Option.map_some]
  rw [documents_iff_of_tables (documents_table_iff_of_some []) hjs, List.singleton_inj]

end Heap

namespace Host

variable {access : Access} (hallows : access.allows "JSON" = true) {s : Session} {v : Value}
  (rest : List Value)

include hallows

theorem stringify_eq {j : Json} (hj : s.heap.json? v = some j) :
    global access ["JSON", "stringify"] (v :: rest) s = .ok (.text j.render) s := by
  have hplan : globalPlan access s.heap ["JSON", "stringify"] (v :: rest) =
      .ok (.give (.text j.render)) := by
    rw [globalPlan, if_pos hallows, scopePlan, jsonPlan, stringified]
    simp only [HostCall.arg, List.getElem?_cons_zero, bind, Except.bind, hj]
    rfl
  exact global_of_plan hplan

theorem stringify_cyclic (hj : s.heap.json? v = none) :
    global access ["JSON", "stringify"] (v :: rest) s =
      .error (.ofCause (.host "JSON/stringify" .cyclic)) s := by
  have hplan : globalPlan access s.heap ["JSON", "stringify"] (v :: rest) =
      .error (.host "JSON/stringify" .cyclic) := by
    rw [globalPlan, if_pos hallows, scopePlan, jsonPlan, stringified]
    simp only [HostCall.arg, List.getElem?_cons_zero, bind, Except.bind, hj]
    rfl
  rw [global_eq, hplan]
  rfl

end Host

/-- Converting a value to JSON fails exactly if a table that contains itself, through items and
values, can be come to from it. Everything else has one document, in which a table stands as often
as it occurs, and no table is left marked as open. -/
theorem Host.stringify_fails_iff_cyclic (access : Access) (hallows : access.allows "JSON" = true)
    (s : Session) (v : Value) (rest : List Value) :
    (Host.global access ["JSON", "stringify"] (v :: rest) s =
        .error (.ofCause (.host "JSON/stringify" .cyclic)) s ↔ s.heap.CyclicFrom v) ∧
    HostFault.cyclic.message = "cannot convert a hash that contains itself" ∧
    (¬s.heap.CyclicFrom v → ∃ j, (∀ j', s.heap.Documents [] [v] [j'] ↔ j' = j) ∧
      Host.global access ["JSON", "stringify"] (v :: rest) s = .ok (.text j.render) s) ∧
    (∀ r marks, s.heap.Converts [] [v] r marks ↔
      r = (s.heap.json? v).map (fun j => [j]) ∧ marks = []) ∧
    (∀ marks vs r marks', s.heap.Converts marks vs r marks' → marks' = marks) := by
  refine ⟨?_, rfl, fun hgrounded => ?_, fun r marks => Heap.converts_iff,
    fun marks vs r marks' hc => hc.eq.1⟩
  · rw [← Heap.json?_eq_none_iff]
    cases hj : s.heap.json? v with
    | none => simp [stringify_cyclic hallows rest hj]
    | some j => simp [stringify_eq hallows rest hj]
  · rw [← Heap.json?_eq_none_iff] at hgrounded
    obtain ⟨j, hj⟩ := Option.ne_none_iff_exists'.1 hgrounded
    exact ⟨j, fun j' => Heap.documents_iff hj, stringify_eq hallows rest hj⟩

/-- A table with itself in a list that it holds; and a table that stands twice in a list and holds
itself as a key only. -/
theorem Host.stringify_cyclic_and_shared :
    let s (t : Table) : Session := { Session.initial with heap := ⟨#[t]⟩ }
    Host.global .all ["JSON", "stringify"] [.table 0] (s [(.text "me", .list [.table 0])]) =
      .error (.ofCause (.host "JSON/stringify" .cyclic)) (s [(.text "me", .list [.table 0])]) ∧
    Host.global .all ["JSON", "stringify"] [.list [.table 0, .table 0]] (s [(.table 0, .nil)]) =
      .ok (.text "[\x7b\"\x7b...\x7d\":null\x7d,\x7b\"\x7b...\x7d\":null\x7d]")
        (s [(.table 0, .nil)]) := by
  intro s
  have hcyclic : (⟨#[[(.text "me", .list [.table 0])]]⟩ : Heap).CyclicFrom (.table 0) :=
    ⟨0, .refl, Heap.leads_of_value (List.mem_singleton_self _)
      (.item (List.mem_singleton_self _) .self)⟩
  have hgrounded : ¬(⟨#[[(.table 0, .nil)]]⟩ : Heap).CyclicFrom (.list [.table 0, .table 0]) := by
    rw [← Heap.json?_eq_none_iff]
    exact Option.some_ne_none _
  refine ⟨(stringify_fails_iff_cyclic .all rfl (s _) _ []).1.2 hcyclic, ?_⟩
  obtain ⟨j, hj, hrender⟩ := (stringify_fails_iff_cyclic .all rfl (s _) _ []).2.2.1 hgrounded
  have htable : (⟨#[[(.table 0, .nil)]]⟩ : Heap).Documents [0] [.nil] [.null] :=
    .simple rfl (.nil _)
  rw [hrender, ← (hj _).1 (.list (.table htable (.table htable (.nil _))) (.nil _))]
  refine congrArg (fun text => EStateM.Result.ok (Value.text text) (s [(.table 0, .nil)])) ?_
  cbv

end Lisplet
