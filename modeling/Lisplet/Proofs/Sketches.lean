import Lisplet.Proofs.Walks
import Mathlib

/-!
The text of a value, drawn out. A sketch shows every occurrence of a table in a text, either in full
or cut short. Writing a value draws one sketch, whatever tables are marked as open beforehand, and
leaves the marks as they were. In it a table is cut short exactly where it stands inside itself; so
where no table contains itself, the text is the one that a renderer without marks would write.
-/

namespace Lisplet

/-- The value is neither a list nor a table. -/
def Value.isSimple : Value → Bool
  | .list _ | .table _ => false
  | _ => true

/-- Keys and values by turns. -/
def turns {α : Type} (entries : List (α × α)) : List α := entries.flatMap fun e => [e.1, e.2]

inductive Sketch
  | leaf (v : Value) (hv : v.isSimple = true)
  | list (items : List Sketch)
  | opened (id : TableId) (entries : List (Sketch × Sketch))
  | cut (id : TableId)

namespace Sketch

mutual

def text (quoted : Bool) : Sketch → String
  | leaf v _ => v.render (fun _ => Heap.ellipsis) quoted
  | list items => "[" ++ " ".intercalate (textAll items) ++ "]"
  | opened _ entries => "\x7b" ++ ", ".intercalate (textEntries entries) ++ "\x7d"
  | cut _ => Heap.ellipsis

def textAll : List Sketch → List String
  | [] => []
  | s :: ss => text true s :: textAll ss

def textEntries : List (Sketch × Sketch) → List String
  | [] => []
  | (k, v) :: entries => (text false k ++ " " ++ text true v) :: textEntries entries

end

mutual

/-- The value that a sketch shows. -/
def value : Sketch → Value
  | leaf v _ => v
  | list items => .list (valueAll items)
  | opened id _ | cut id => .table id

def valueAll : List Sketch → List Value
  | [] => []
  | s :: ss => value s :: valueAll ss

end

theorem textAll_eq (ss : List Sketch) : textAll ss = ss.map (text true) := by
  induction ss with
  | nil => rfl
  | cons s ss ih => rw [textAll, ih, List.map_cons]

theorem textEntries_eq (entries : List (Sketch × Sketch)) :
    textEntries entries = entries.map fun e => e.1.text false ++ " " ++ e.2.text true := by
  induction entries with
  | nil => rfl
  | cons e entries ih => rw [textEntries, ih, List.map_cons]

theorem valueAll_eq (ss : List Sketch) : valueAll ss = ss.map value := by
  induction ss with
  | nil => rfl
  | cons s ss ih => rw [valueAll, ih, List.map_cons]

/-- An occurrence in a sketch, with the tables in whose entries it stands, innermost first. -/
inductive Shows : Sketch → List TableId → Sketch → Prop
  | self (s : Sketch) : Shows s [] s
  | item {items : List Sketch} {s sub : Sketch} {around : List TableId} (hs : s ∈ items)
      (h : Shows s around sub) : Shows (.list items) around sub
  | key {id : TableId} {entries : List (Sketch × Sketch)} {e : Sketch × Sketch} {sub : Sketch}
      {around : List TableId} (he : e ∈ entries) (h : Shows e.1 around sub) :
      Shows (.opened id entries) (around ++ [id]) sub
  | value {id : TableId} {entries : List (Sketch × Sketch)} {e : Sketch × Sketch} {sub : Sketch}
      {around : List TableId} (he : e ∈ entries) (h : Shows e.2 around sub) :
      Shows (.opened id entries) (around ++ [id]) sub

/-- What may stand inside the entries of the tables `around`: one of them cut short, and any other
table with all its entries. -/
def Fits (h : Heap) (around : List TableId) : Sketch → Prop
  | cut id => id ∈ around
  | opened id entries =>
    id ∉ around ∧ entries.map (fun e => (e.1.value, e.2.value)) = h.get id
  | _ => True

/-- A table is cut short exactly where it stands inside itself or is marked as open. -/
def CutsCycles (h : Heap) (marks : List TableId) (s : Sketch) : Prop :=
  ∀ around sub, s.Shows around sub → sub.Fits h (around ++ marks)

end Sketch

/-- Writing values one after another, with the tables that are marked as open before and after.
Writing a table marks it, and unmarks it at the end. -/
inductive Heap.Draws (h : Heap) : List TableId → List Value → List Sketch → List TableId → Prop
  | nil (marks : List TableId) : Draws h marks [] [] marks
  | simple {marks marks' : List TableId} {v : Value} {vs : List Value} {ss : List Sketch}
      (hv : v.isSimple = true) (hvs : Draws h marks vs ss marks') :
      Draws h marks (v :: vs) (.leaf v hv :: ss) marks'
  | list {marks marks' marks'' : List TableId} {items vs : List Value} {parts ss : List Sketch}
      (hitems : Draws h marks items parts marks') (hvs : Draws h marks' vs ss marks'') :
      Draws h marks (.list items :: vs) (.list parts :: ss) marks''
  | cut {marks marks' : List TableId} {id : TableId} {vs : List Value} {ss : List Sketch}
      (hid : id ∈ marks) (hvs : Draws h marks vs ss marks') :
      Draws h marks (.table id :: vs) (.cut id :: ss) marks'
  | opened {marks marks' marks'' : List TableId} {id : TableId} {vs : List Value}
      {entries : List (Sketch × Sketch)} {ss : List Sketch} (hid : id ∉ marks)
      (hentries : Draws h (id :: marks) (turns (h.get id)) (turns entries) marks')
      (hvs : Draws h (marks'.erase id) vs ss marks'') :
      Draws h marks (.table id :: vs) (.opened id entries :: ss) marks''

section Turns

variable {α β : Type} {R : α → β → Prop}

theorem turns_cons (e : α × α) (entries : List (α × α)) :
    turns (e :: entries) = e.1 :: e.2 :: turns entries := rfl

theorem sizeOf_turns [SizeOf α] (entries : List (α × α)) :
    sizeOf (turns entries) = sizeOf entries := by
  induction entries with
  | nil => rfl
  | cons e entries ih =>
    obtain ⟨a, b⟩ := e
    simp only [turns_cons, List.cons.sizeOf_spec, Prod.mk.sizeOf_spec, ih]
    omega

theorem mem_turns {a : α} {entries : List (α × α)} :
    a ∈ turns entries ↔ ∃ e ∈ entries, a = e.1 ∨ a = e.2 := by
  simp [turns]

/-- Entries correspond as soon as their keys and values do by turns. -/
theorem forall₂_turns {as : List (α × α)} {bs : List (β × β)} :
    List.Forall₂ R (turns as) (turns bs) ↔
      List.Forall₂ (fun a b => R a.1 b.1 ∧ R a.2 b.2) as bs := by
  induction as generalizing bs with
  | nil => cases bs <;> simp [turns]
  | cons a as ih =>
    cases bs with
    | nil => simp [turns]
    | cons b bs => simp only [turns_cons, List.forall₂_cons, ih, and_assoc]

theorem turns_injective {as as' : List (α × α)} (h : turns as = turns as') : as = as' := by
  have hsame : List.Forall₂ Eq (turns as) (turns as') := by rw [h, List.forall₂_eq_eq_eq]
  exact eq_of_forall₂ (forall₂_turns.1 hsame) fun a b hab => Prod.ext hab.1 hab.2

theorem exists_turns {as : List α} {bs : List (β × β)} (h : List.Forall₂ R as (turns bs)) :
    ∃ entries, as = turns entries := by
  induction bs generalizing as with
  | nil =>
    cases h
    exact ⟨[], rfl⟩
  | cons b bs ih =>
    rw [turns_cons] at h
    cases h with
    | cons h₁ h =>
      cases h with
      | cons h₂ h =>
        obtain ⟨entries, rfl⟩ := ih h
        exact ⟨(_, _) :: entries, rfl⟩

end Turns

theorem Value.renderAll_eq (table : TableId → String) (vs : List Value) :
    Value.renderAll table vs = vs.map (Value.render table true) := by
  induction vs with
  | nil => rfl
  | cons v vs ih => rw [renderAll, ih, List.map_cons]

theorem Value.render_simple {v : Value} (hv : v.isSimple = true) (table table' : TableId → String)
    (quoted : Bool) : v.render table quoted = v.render table' quoted := by
  cases v with
  | list items => cases hv
  | table id => cases hv
  | _ => rfl

theorem map_turns {α β : Type} (f : α → β) (entries : List (α × α)) :
    (turns entries).map f = turns (entries.map fun e => (f e.1, f e.2)) := by
  simp [turns, List.map_flatMap, List.flatMap_map]

namespace Sketch

variable {h : Heap} {marks : List TableId}

theorem cutsCycles_leaf {v : Value} (hv : v.isSimple = true) : (leaf v hv).CutsCycles h marks := by
  intro around sub hsub
  cases hsub
  trivial

theorem cutsCycles_cut {id : TableId} : (cut id).CutsCycles h marks ↔ id ∈ marks := by
  refine ⟨fun hcut => hcut [] _ (.self _), fun hid around sub hsub => ?_⟩
  cases hsub
  exact hid

theorem cutsCycles_list {items : List Sketch} :
    (list items).CutsCycles h marks ↔ ∀ s ∈ items, s.CutsCycles h marks := by
  refine ⟨fun hlist s hs around sub hsub => hlist around sub (.item hs hsub), ?_⟩
  intro hitems around sub hsub
  cases hsub with
  | self => trivial
  | item hs hsub => exact hitems _ hs around sub hsub

theorem cutsCycles_opened {id : TableId} {entries : List (Sketch × Sketch)} :
    (opened id entries).CutsCycles h marks ↔
      (opened id entries).Fits h marks ∧ ∀ s ∈ turns entries, s.CutsCycles h (id :: marks) := by
  constructor
  · intro hopened
    refine ⟨hopened [] _ (.self _), fun s hs around sub hsub => ?_⟩
    obtain ⟨e, he, rfl | rfl⟩ := mem_turns.1 hs
    · simpa using hopened _ _ (.key he hsub)
    · simpa using hopened _ _ (.value he hsub)
  · rintro ⟨hfits, hparts⟩ around sub hsub
    cases hsub with
    | self => exact hfits
    | key he hsub => simpa using hparts _ (mem_turns.2 ⟨_, he, .inl rfl⟩) _ _ hsub
    | value he hsub => simpa using hparts _ (mem_turns.2 ⟨_, he, .inr rfl⟩) _ _ hsub

/-- The text of a value is read off the sketch that cuts its cycles. -/
theorem CutsCycles.text_eq {marks : List TableId} {s : Sketch} (hs : s.CutsCycles h marks)
    (quoted : Bool) : s.text quoted = s.value.render (h.tableText marks) quoted := by
  match s with
  | leaf v hv => exact Value.render_simple hv _ _ quoted
  | cut id =>
    rw [text, value, Value.render, h.tableText_eq, if_pos (cutsCycles_cut.1 hs)]
  | list items =>
    have hitems : items.map (text true) =
        items.map fun s => s.value.render (h.tableText marks) true := by
      refine List.map_congr_left fun s hmem => ?_
      have hlt := List.sizeOf_lt_of_mem hmem
      exact (cutsCycles_list.1 hs s hmem).text_eq true
    rw [text, value, Value.render, textAll_eq, valueAll_eq, Value.renderAll_eq, hitems,
      List.map_map]
    rfl
  | opened id entries =>
    obtain ⟨⟨hid, hget⟩, hparts⟩ := cutsCycles_opened.1 hs
    have hentries : entries.map (fun e => e.1.text false ++ " " ++ e.2.text true) =
        entries.map fun e => Heap.entryText (h.tableText (id :: marks)) (e.1.value, e.2.value) := by
      refine List.map_congr_left fun e hmem => ?_
      have hlt := List.sizeOf_lt_of_mem hmem
      have hpair : sizeOf e = 1 + sizeOf e.1 + sizeOf e.2 := rfl
      rw [(hparts e.1 (mem_turns.2 ⟨e, hmem, .inl rfl⟩)).text_eq false,
        (hparts e.2 (mem_turns.2 ⟨e, hmem, .inr rfl⟩)).text_eq true, Heap.entryText]
    rw [text, value, Value.render, h.tableText_eq, if_neg hid, Heap.fullText, ← hget, List.map_map,
      textEntries_eq, hentries]
    rfl
termination_by sizeOf s

end Sketch

namespace Heap.Draws

variable {h : Heap} {marks marks' marks'' : List TableId} {vs : List Value}
  {ss ts : List Sketch}

/-- Every mark is taken back. -/
theorem marks_eq (hd : h.Draws marks vs ss marks') : marks' = marks := by
  induction hd with
  | nil => rfl
  | simple _ _ ih => exact ih
  | list _ _ ihitems ih => exact ih.trans ihitems
  | cut _ _ ih => exact ih
  | @opened _ _ _ id _ _ _ _ _ _ ihentries ih => rw [ih, ihentries, List.erase_cons_head]

theorem value_eq (hd : h.Draws marks vs ss marks') : ss.map Sketch.value = vs := by
  induction hd with
  | nil => rfl
  | simple _ _ ih => rw [List.map_cons, ih, Sketch.value]
  | list _ _ ihitems ih => rw [List.map_cons, ih, Sketch.value, Sketch.valueAll_eq, ihitems]
  | cut _ _ ih => rw [List.map_cons, ih, Sketch.value]
  | opened _ _ _ _ ih => rw [List.map_cons, ih, Sketch.value]

theorem cutsCycles (hd : h.Draws marks vs ss marks') : ∀ s ∈ ss, s.CutsCycles h marks := by
  induction hd with
  | nil => simp
  | simple hv _ ih => exact List.forall_mem_cons.2 ⟨Sketch.cutsCycles_leaf hv, ih⟩
  | list hitems _ ihitems ih =>
    rw [hitems.marks_eq] at ih
    exact List.forall_mem_cons.2 ⟨Sketch.cutsCycles_list.2 ihitems, ih⟩
  | cut hid _ ih => exact List.forall_mem_cons.2 ⟨Sketch.cutsCycles_cut.2 hid, ih⟩
  | @opened _ _ _ id _ _ _ hid hentries _ ihentries ih =>
    rw [hentries.marks_eq, List.erase_cons_head] at ih
    have hget := hentries.value_eq
    rw [map_turns] at hget
    refine List.forall_mem_cons.2 ⟨Sketch.cutsCycles_opened.2 ⟨⟨hid, turns_injective hget⟩, ?_⟩, ih⟩
    exact ihentries

theorem unique (hd : h.Draws marks vs ss marks') (hd' : h.Draws marks vs ts marks'') : ss = ts := by
  induction hd generalizing ts marks'' with
  | nil => cases hd'; rfl
  | simple hv _ ih =>
    cases hd' with
    | simple _ hvs => rw [ih hvs]
    | list | cut | opened => cases hv
  | list hitems _ ihitems ih =>
    cases hd' with
    | simple hv _ => cases hv
    | list hitems' hvs =>
      rw [hitems'.marks_eq, ← hitems.marks_eq] at hvs
      rw [ihitems hitems', ih hvs]
  | cut hid _ ih =>
    cases hd' with
    | simple hv _ => cases hv
    | cut _ hvs => rw [ih hvs]
    | opened hid' => exact absurd hid hid'
  | opened hid hentries _ ihentries ih =>
    cases hd' with
    | simple hv _ => cases hv
    | cut hid' => exact absurd hid' hid
    | opened _ hentries' hvs =>
      rw [hentries'.marks_eq, ← hentries.marks_eq] at hvs
      rw [turns_injective (ihentries hentries'), ih hvs]

/-- A sketch that cuts the cycles is what is drawn. -/
theorem of_cutsCycles {marks : List TableId} {ss : List Sketch}
    (hss : ∀ s ∈ ss, s.CutsCycles h marks) : h.Draws marks (ss.map Sketch.value) ss marks := by
  match ss with
  | [] => exact .nil marks
  | s :: rest =>
    obtain ⟨hs, hrest⟩ := List.forall_mem_cons.1 hss
    have hd := of_cutsCycles hrest
    match s with
    | .leaf v hv => exact .simple hv hd
    | .cut id => exact .cut (Sketch.cutsCycles_cut.1 hs) hd
    | .list items =>
      have hitems := of_cutsCycles (Sketch.cutsCycles_list.1 hs)
      rw [← Sketch.valueAll_eq] at hitems
      exact .list hitems hd
    | .opened id entries =>
      obtain ⟨⟨hid, hget⟩, hparts⟩ := Sketch.cutsCycles_opened.1 hs
      have hentries := of_cutsCycles hparts
      rw [map_turns, hget] at hentries
      refine .opened hid hentries ?_
      rw [List.erase_cons_head]
      exact hd
termination_by sizeOf ss
decreasing_by
  all_goals simp only [List.cons.sizeOf_spec, Sketch.list.sizeOf_spec,
    Sketch.opened.sizeOf_spec, sizeOf_turns]
  all_goals omega

end Heap.Draws

namespace Heap

variable (h : Heap)

/-- Values can be written as soon as tables can. -/
theorem exists_draws_of_tables {marks : List TableId}
    (htables : ∀ id vs ss, h.Draws marks vs ss marks →
      ∃ s, h.Draws marks (.table id :: vs) (s :: ss) marks) (vs : List Value) :
    ∃ ss, h.Draws marks vs ss marks := by
  match vs with
  | [] => exact ⟨[], .nil marks⟩
  | v :: rest =>
    obtain ⟨ss, hrest⟩ := exists_draws_of_tables htables rest
    by_cases hv : v.isSimple = true
    · exact ⟨.leaf v hv :: ss, .simple hv hrest⟩
    · match v with
      | .list items =>
        obtain ⟨parts, hitems⟩ := exists_draws_of_tables htables items
        exact ⟨.list parts :: ss, .list hitems hrest⟩
      | .table id =>
        obtain ⟨s, hs⟩ := htables id rest ss hrest
        exact ⟨s :: ss, hs⟩
      | .nil | .bool _ | .number _ | .text _ | .function _ => exact absurd rfl hv
termination_by sizeOf vs

theorem exists_draws (marks : List TableId) (vs : List Value) :
    ∃ ss, h.Draws marks vs ss marks := by
  refine h.exists_draws_of_tables (fun id => ?_) vs
  refine h.walk_induct (P := fun marks id => ∀ vs ss, h.Draws marks vs ss marks →
    ∃ s, h.Draws marks (.table id :: vs) (s :: ss) marks) ?_ ?_ marks id
  · intro marks id hid vs ss hvs
    exact ⟨.cut id, .cut hid hvs⟩
  · intro marks id hid hinside vs rest hvs
    obtain ⟨ss, hss⟩ : ∃ ss, h.Draws (id :: marks) (turns (h.get id)) ss (id :: marks) := by
      cases hget : h.get id with
      | nil => exact ⟨[], .nil _⟩
      | cons e t => exact h.exists_draws_of_tables (hinside e (by simp [hget])) _
    have hvalues : List.Forall₂ (fun s v => s.value = v) ss (turns (h.get id)) := by
      rw [← hss.value_eq, List.forall₂_map_right_iff, List.forall₂_same]
      exact fun _ _ => rfl
    obtain ⟨entries, rfl⟩ := exists_turns hvalues
    refine ⟨.opened id entries, .opened hid hss ?_⟩
    rw [List.erase_cons_head]
    exact hvs

/-- A value has one sketch that cuts its cycles, and writing the value draws it. -/
theorem exists_sketch (marks : List TableId) (v : Value) :
    ∃ s : Sketch, (∀ t marks', h.Draws marks [v] [t] marks' ↔ t = s ∧ marks' = marks) ∧
      ∀ t : Sketch, t.value = v ∧ t.CutsCycles h marks ↔ t = s := by
  obtain ⟨ss, hss⟩ := h.exists_draws marks [v]
  have hvalues := hss.value_eq
  obtain ⟨s, rfl⟩ : ∃ s, ss = [s] := by
    rw [List.map_eq_singleton_iff] at hvalues
    exact ⟨_, hvalues.choose_spec.1⟩
  refine ⟨s, fun t marks' => ⟨fun ht => ⟨?_, ht.marks_eq⟩, ?_⟩, fun t => ⟨?_, ?_⟩⟩
  · exact List.singleton_injective (ht.unique hss)
  · rintro ⟨rfl, rfl⟩
    exact hss
  · rintro ⟨rfl, ht⟩
    have hall : ∀ s ∈ [t], s.CutsCycles h marks := by simpa using ht
    exact List.singleton_injective ((Draws.of_cutsCycles hall).unique hss)
  · rintro rfl
    exact ⟨List.singleton_injective hvalues, hss.cutsCycles t (by simp)⟩

end Heap

/-! Rendering without marks. -/

mutual

theorem Value.render_congr {v : Value} {table table' : TableId → String}
    (ht : ∀ id, v.Contains id → table id = table' id) (quoted : Bool) :
    v.render table quoted = v.render table' quoted := by
  match v with
  | .list items =>
    rw [render, render, renderAll_congr fun v hv id hid => ht id (.item hv hid)]
  | .table id => exact ht id .self
  | .nil | .bool _ | .number _ | .text _ | .function _ => rfl

theorem Value.renderAll_congr {vs : List Value} {table table' : TableId → String}
    (ht : ∀ v ∈ vs, ∀ id, v.Contains id → table id = table' id) :
    renderAll table vs = renderAll table' vs := by
  match vs with
  | [] => rfl
  | v :: vs =>
    obtain ⟨hv, hvs⟩ := List.forall_mem_cons.1 ht
    rw [renderAll, renderAll, render_congr hv true, renderAll_congr hvs]

end

namespace Heap

variable {h : Heap}

theorem fullText_congr {table table' : TableId → String} {t : Table}
    (ht : ∀ e ∈ t, ∀ id, e.1.Contains id ∨ e.2.Contains id → table id = table' id) :
    fullText table t = fullText table' t := by
  have hentries : t.map (entryText table) = t.map (entryText table') := by
    refine List.map_congr_left fun e he => ?_
    rw [entryText, entryText, Value.render_congr fun id hid => ht e he id (.inl hid),
      Value.render_congr fun id hid => ht e he id (.inr hid)]
  rw [fullText, fullText, hentries]

variable (h)

/-- No table contains itself, through lists, keys and values. -/
def Acyclic : Prop := ∀ id, ¬Relation.TransGen (h.Leads true) (.table id) (.table id)

/-- A way of writing tables that writes each in full, unless it is marked as open. -/
def WritesUnmarked (table : List TableId → TableId → String) : Prop :=
  ∀ marks id, id ∉ marks → table marks id = fullText (table (id :: marks)) (h.get id)

theorem tableText_writesUnmarked : h.WritesUnmarked h.tableText := by
  intro marks id hid
  rw [h.tableText_eq, if_neg hid]

variable {h}

/-- Where no table contains itself, marks on the tables around never matter. -/
theorem WritesUnmarked.eq {table table' : List TableId → TableId → String}
    (ht : h.WritesUnmarked table) (ht' : h.WritesUnmarked table') (hacyclic : h.Acyclic)
    (marks : List TableId) (id : TableId) (marks' : List TableId)
    (hm : ∀ m ∈ marks, Relation.TransGen (h.Leads true) (.table m) (.table id))
    (hm' : ∀ m ∈ marks', Relation.TransGen (h.Leads true) (.table m) (.table id)) :
    table marks id = table' marks' id := by
  refine h.walk_induct (P := fun marks id => ∀ marks',
    (∀ m ∈ marks, Relation.TransGen (h.Leads true) (.table m) (.table id)) →
    (∀ m ∈ marks', Relation.TransGen (h.Leads true) (.table m) (.table id)) →
    table marks id = table' marks' id) ?_ ?_ marks id marks' hm hm'
  · intro marks id hid marks' hm _
    exact absurd (hm id hid) (hacyclic id)
  · intro marks id hid hinside marks' hm hm'
    have hid' : id ∉ marks' := fun hmem => hacyclic id (hm' id hmem)
    rw [ht marks id hid, ht' marks' id hid']
    refine fullText_congr fun e he other hother => ?_
    -- everything open leads to the table, and the table to what its entries contain
    have hstep : Relation.TransGen (h.Leads true) (.table id) (.table other) :=
      hother.elim (leads_of_key he) (leads_of_value he)
    refine hinside e he other (id :: marks') ?_ ?_
    · exact List.forall_mem_cons.2 ⟨hstep, fun m hmem => (hm m hmem).trans hstep⟩
    · exact List.forall_mem_cons.2 ⟨hstep, fun m hmem => (hm' m hmem).trans hstep⟩

/-- A renderer without marks: it writes every table in full. -/
def RendersPlainly (h : Heap) (table : TableId → String) : Prop :=
  ∀ id, table id = fullText table (h.get id)

theorem Acyclic.rendersPlainly_iff (hacyclic : h.Acyclic) (table : TableId → String) :
    h.RendersPlainly table ↔ table = h.tableText [] := by
  constructor
  · intro hplain
    funext id
    have hwrites : h.WritesUnmarked fun _ => table := fun _ id _ => hplain id
    exact hwrites.eq h.tableText_writesUnmarked hacyclic [] id [] (by simp) (by simp)
  · rintro rfl id
    rw [h.tableText_writesUnmarked [] id (by simp)]
    refine fullText_congr fun e he other hother => ?_
    have hstep : Relation.TransGen (h.Leads true) (.table id) (.table other) :=
      hother.elim (leads_of_key he) (leads_of_value he)
    exact h.tableText_writesUnmarked.eq h.tableText_writesUnmarked hacyclic [id] other []
      (by simpa using hstep) (by simp)

/-- Writing a value ends, whatever tables are marked as open, with the marks as before. It draws the
one sketch of the value in which a table is cut short exactly where it stands inside itself, in an
item, a key or a value, and in full wherever else it occurs. If no table contains itself, there is
one renderer that writes every table in full, and the text is what it writes. -/
theorem text_cuts_cycles (h : Heap) :
    (∀ marks v, ∃ s : Sketch,
      (∀ t marks', h.Draws marks [v] [t] marks' ↔ t = s ∧ marks' = marks) ∧
      (∀ t : Sketch, t.value = v ∧ t.CutsCycles h marks ↔ t = s) ∧
      h.displayWithin marks v = s.text false ∧
      (marks = [] → h.display v = s.text false ∧ h.inspect v = s.text true)) ∧
    (h.Acyclic → ∃ table, (∀ table', h.RendersPlainly table' ↔ table' = table) ∧
      ∀ v, h.display v = v.render table false ∧ h.inspect v = v.render table true) := by
  refine ⟨fun marks v => ?_, fun hacyclic => ⟨h.tableText [], hacyclic.rendersPlainly_iff, ?_⟩⟩
  · obtain ⟨s, hdraws, hsketch⟩ := h.exists_sketch marks v
    obtain ⟨rfl, hs⟩ := (hsketch s).2 rfl
    refine ⟨s, hdraws, hsketch, (hs.text_eq false).symm, ?_⟩
    rintro rfl
    exact ⟨(hs.text_eq false).symm, (hs.text_eq true).symm⟩
  · exact fun v => ⟨rfl, rfl⟩

/-- A table that holds itself twice over, and one that stands twice in a list. -/
theorem text_cuts_cycles_looped_and_shared :
    display ⟨#[[(.text "me", .table 0), (.text "in", .list [.table 0])]]⟩ (.table 0) =
      "\x7bme \x7b...\x7d, in [\x7b...\x7d]\x7d" ∧
    display ⟨#[[(.text "k", .bool true)]]⟩ (.list [.table 0, .table 0]) =
      "[\x7bk true\x7d \x7bk true\x7d]" := by
  constructor
  · obtain ⟨s, hdraws, -, -, htext⟩ :=
      (text_cuts_cycles ⟨#[[(.text "me", .table 0), (.text "in", .list [.table 0])]]⟩).1
        [] (.table 0)
    have hentries : Draws ⟨#[[(.text "me", .table 0), (.text "in", .list [.table 0])]]⟩ [0]
        [.text "me", .table 0, .text "in", .list [.table 0]]
        (turns [(.leaf (.text "me") rfl, .cut 0), (.leaf (.text "in") rfl, .list [.cut 0])]) [0] :=
      .simple rfl (.cut (by simp) (.simple rfl (.list (.cut (by simp) (.nil _)) (.nil _))))
    rw [(htext rfl).1, ← ((hdraws _ _).1 (.opened (by simp) hentries (.nil _))).1]
    rfl
  · have hentry : ∀ id, ∀ e ∈ get ⟨#[[(.text "k", .bool true)]]⟩ id,
        e = (.text "k", .bool true) := by
      intro id e he
      cases id with
      | zero => exact List.mem_singleton.1 he
      | succ id => cases he
    have hacyclic : Acyclic ⟨#[[(.text "k", .bool true)]]⟩ := by
      intro id hcycle
      obtain ⟨w, hw, hrest⟩ := Relation.TransGen.head'_iff.1 hcycle
      have hsimple : w.isSimple = true := by
        cases hw with
        | key _ he => rw [hentry id _ he]; rfl
        | value he => rw [hentry id _ he]; rfl
      rcases hrest.cases_head with rfl | ⟨x, hx, -⟩
      · cases hsimple
      · cases hx <;> cases hsimple
    obtain ⟨table, htable, hdisplay⟩ := (text_cuts_cycles _).2 hacyclic
    have hplain : table 0 = "\x7bk true\x7d" := (htable table).2 rfl 0
    rw [(hdisplay _).1]
    simp only [Value.render, Value.renderAll, hplain]
    rfl

end Heap

end Lisplet
