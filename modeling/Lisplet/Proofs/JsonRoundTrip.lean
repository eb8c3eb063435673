import Lisplet.Eval.Apply
import Lisplet.Proofs.Cycles
import Lisplet.Proofs.JsonReading
import Mathlib

/-!
From values to texts and back. Data made of nil, truth values, safe integers, texts, lists, and
tables with texts for keys has a document, as long as it is not nested too deep. The text of that
document reads back as one that records the same data, and the value built from it mirrors the data
in tables of its own.
-/

namespace Lisplet

namespace Heap

/-- Data that JSON keeps, with no more than `depth` lists and tables inside one another. -/
inductive IsData (h : Heap) : (depth : Nat) → Value → Prop
  | nil (depth : Nat) : IsData h depth .nil
  | bool (depth : Nat) (b : Bool) : IsData h depth (.bool b)
  | number (depth : Nat) {x : Number} {n : Int} (hx : x.IsSafe n) : IsData h depth (.number x)
  | text (depth : Nat) (s : String) : IsData h depth (.text s)
  | list {depth : Nat} {items : List Value} (hitems : ∀ v ∈ items, IsData h depth v) :
      IsData h (depth + 1) (.list items)
  | table {depth : Nat} {id : TableId} (hdistinct : (h.get id).Distinct)
      (hkeys : ∀ k ∈ (h.get id).keys, ∃ s, k = .text s)
      (hvalues : ∀ v ∈ (h.get id).values, IsData h depth v) : IsData h (depth + 1) (.table id)

/-- The second value, in its heap, is like the first in its own: scalars equal, lists item by item,
and for a table a new one, numbered from `base` on, with the same keys in the same order. -/
inductive Mirrors (h : Heap) (base : Nat) (h' : Heap) : Value → Value → Prop
  | nil : Mirrors h base h' .nil .nil
  | bool (b : Bool) : Mirrors h base h' (.bool b) (.bool b)
  | number {x y : Number} (hxy : (y == x) = true) : Mirrors h base h' (.number x) (.number y)
  | text (s : String) : Mirrors h base h' (.text s) (.text s)
  | list {items items' : List Value} (hitems : List.Forall₂ (Mirrors h base h') items items') :
      Mirrors h base h' (.list items) (.list items')
  | table {id id' : TableId} (hnew : base ≤ id' ∧ id' < h'.size)
      (hkeys : (h'.get id').keys = (h.get id).keys)
      (hvalues : List.Forall₂ (Mirrors h base h') (h.get id).values (h'.get id').values) :
      Mirrors h base h' (.table id) (.table id')

variable {h : Heap}

/-! Documents of data. -/

theorem IsData.grounded {depth : Nat} {v : Value} (hv : h.IsData depth v) : h.Grounded v := by
  induction hv with
  | list _ ih =>
    refine .intro _ fun w hw => ?_
    cases hw with
    | item hmem => exact ih _ hmem
  | table _ _ _ ih =>
    refine .intro _ fun w hw => ?_
    cases hw with
    | key hk => cases hk
    | value he => exact ih _ (List.mem_map_of_mem he)
  | _ => exact .intro _ fun w hw => by cases hw

theorem IsData.exists_json {depth : Nat} {v : Value} (hv : h.IsData depth v) :
    ∃ j, h.json? v = some j ∧ h.Documents [] [v] [j] := by
  have hsome : h.json? v ≠ none := fun hnone =>
    hv.grounded.not_cyclicFrom ((h.json?_eq_none_iff v).1 hnone)
  obtain ⟨j, hj⟩ := Option.ne_none_iff_exists'.1 hsome
  exact ⟨j, hj, (documents_iff hj).2 rfl⟩

/-- Values are converted one by one. -/
theorem documents_forall₂ {marks : List TableId} {vs : List Value} {js : List Json}
    (hd : h.Documents marks vs js) :
    List.Forall₂ (fun v j => h.Documents marks [v] [j]) vs js := by
  induction hd with
  | nil marks => exact .nil
  | simple hv _ ih => exact .cons (.simple hv (.nil _)) ih
  | list hitems _ _ ih => exact .cons (.list hitems (.nil _)) ih
  | table hvalues _ _ ih => exact .cons (.table hvalues (.nil _)) ih

theorem records_all {depth : Nat} {vs : List Value} {marks : List TableId} {js : List Json}
    (hvs : ∀ v ∈ vs, ∀ {j}, h.Documents marks [v] [j] → h.Records v j ∧ Json.Fits depth j)
    (hd : h.Documents marks vs js) :
    List.Forall₂ h.Records vs js ∧ ∀ j ∈ js, Json.Fits depth j := by
  have hall := documents_forall₂ hd
  clear hd
  induction hall with
  | nil => exact ⟨.nil, by simp⟩
  | cons hj _ ih =>
    obtain ⟨hv, hvs⟩ := List.forall_mem_cons.1 hvs
    obtain ⟨hrecords, hfits⟩ := hv hj
    obtain ⟨hrest, hfits'⟩ := ih hvs
    exact ⟨.cons hrecords hrest, List.forall_mem_cons.2 ⟨hfits, hfits'⟩⟩

/-- The texts of keys that are texts are these texts. -/
theorem map_displayWithin (marks : List TableId) {keys : List Value}
    (hkeys : ∀ k ∈ keys, ∃ s, k = .text s) :
    (keys.map (h.displayWithin marks)).map Value.text = keys := by
  have hself : ∀ k ∈ keys, (Value.text ∘ h.displayWithin marks) k = id k := by
    intro k hk
    obtain ⟨s, rfl⟩ := hkeys k hk
    rfl
  rw [List.map_map, List.map_congr_left hself, List.map_id]

theorem distinct_iff_nodup {t : Table} {names : List String}
    (hnames : names.map Value.text = t.keys) : t.Distinct ↔ names.Nodup := by
  rw [Table.Distinct, ← hnames, List.pairwise_map, List.Nodup]
  simp only [Value.sameKey, Value.same, beq_eq_false_iff_ne]

end Heap

theorem Json.gather_of_nodup {members : List (String × Json)} {names : List String}
    {js : List Json} (hnames : (members.map Prod.fst ++ names).Nodup) :
    Json.gather members names js = members ++ names.zip js := by
  induction names generalizing members js with
  | nil => simp [gather]
  | cons name names ih =>
    cases js with
    | nil => simp [gather]
    | cons j js =>
      have hnew : name ∉ members.map Prod.fst := fun hmem =>
        (List.nodup_append.1 hnames).2.2 name hmem name List.mem_cons_self rfl
      have hnames' : ((members ++ [(name, j)]).map Prod.fst ++ names).Nodup := by simpa using hnames
      have hgather : gather (members ++ [(name, j)]) names js = _ := ih hnames'
      rw [gather] at hgather ⊢
      rw [List.zip_cons_cons, List.foldl_cons, setMember_of_notMem j hnew, hgather,
        List.append_assoc, List.singleton_append]

namespace Heap

variable {h : Heap}

theorem Documents.eq_ofSimple {marks : List TableId} {v : Value} {j : Json}
    (hd : h.Documents marks [v] [j]) (hv : v.isSimple = true) : j = Json.ofSimple v := by
  obtain ⟨js, -, heq⟩ := (documents_simple_iff hv).1 hd
  exact (List.cons.inj heq).1

/-- An object records a table if it has the texts of the keys for names. -/
theorem records_zip {depth : Nat} {id : TableId} {names : List String} {js : List Json}
    (hdistinct : (h.get id).Distinct) (hnames : names.map Value.text = (h.get id).keys)
    (hrecords : List.Forall₂ h.Records (h.get id).values js)
    (hfits : ∀ j ∈ js, Json.Fits depth j) :
    h.Records (.table id) (.object (names.zip js)) ∧
      Json.Fits (depth + 1) (.object (names.zip js)) := by
  have hlen : names.length = js.length := by
    have hkeys := congrArg List.length hnames
    have hvalues := hrecords.length_eq
    rw [Table.keys, List.length_map, List.length_map] at hkeys
    rw [Table.values, List.length_map] at hvalues
    omega
  have hfst : (names.zip js).map Prod.fst = names := List.map_fst_zip (by omega)
  have hsnd : (names.zip js).map Prod.snd = js := List.map_snd_zip (by omega)
  have hnodup : ((names.zip js).map Prod.fst).Nodup := by
    rw [hfst]
    exact (distinct_iff_nodup hnames).1 hdistinct
  refine ⟨.table hnodup ?_ (by rwa [hsnd]), .object hnodup ?_⟩
  · rw [← hnames]
    nth_rw 1 [← hfst]
    rw [List.map_map]
    rfl
  · exact fun e he => hfits e.2 (List.of_mem_zip he).2

/-- The document of data records it, and can be read. -/
theorem IsData.records {depth : Nat} {v : Value} (hv : h.IsData depth v) {marks : List TableId}
    {j : Json} (hd : h.Documents marks [v] [j]) : h.Records v j ∧ Json.Fits depth j := by
  induction hv generalizing marks j with
  | nil depth =>
    rw [hd.eq_ofSimple rfl]
    exact ⟨.nil, .null depth⟩
  | bool depth b =>
    rw [hd.eq_ofSimple rfl]
    exact ⟨.bool b, .bool depth b⟩
  | number depth hx =>
    rw [hd.eq_ofSimple rfl, Json.ofSimple, Json.ofValue?, if_pos hx.isFinite]
    exact ⟨.number hx.beq_self, .number depth hx⟩
  | text depth s =>
    rw [hd.eq_ofSimple rfl]
    exact ⟨.text s, .text depth s⟩
  | list _ ih =>
    obtain ⟨js, js', hitems, -, heq⟩ := documents_list_iff.1 hd
    obtain rfl := (List.cons.inj heq).1
    obtain ⟨hrecords, hfits⟩ := records_all (fun v hv _ hj => ih v hv hj) hitems
    exact ⟨.list hrecords, .array hfits⟩
  | @table depth id hdistinct hkeys _ ih =>
    obtain ⟨js, js', hvalues, -, heq⟩ := documents_table_iff.1 hd
    obtain rfl := (List.cons.inj heq).1
    obtain ⟨hrecords, hfits⟩ := records_all (fun v hv _ hj => ih v hv hj) hvalues
    have hnames := map_displayWithin (h := h) (id :: marks) hkeys
    have hnodup := (distinct_iff_nodup hnames).1 hdistinct
    rw [Json.gather_of_nodup (by simpa using hnodup), List.nil_append]
    exact records_zip hdistinct hnames hrecords hfits

end Heap

/-! Values of documents. -/

/-- Setting entries with new and distinct keys puts them behind those that are there. -/
theorem Table.foldl_set {t entries : Table} (h : Table.Distinct (t ++ entries)) :
    entries.foldl (fun t e => Table.set t e.1 e.2) t = t ++ entries := by
  induction entries generalizing t with
  | nil => simp
  | cons e entries ih =>
    have hnew : t.has e.1 = false := by
      rw [Table.has_eq_false_iff]
      intro k hk
      rw [Table.Distinct, Table.keys, List.map_append, List.pairwise_append] at h
      exact h.2.2 k hk e.1 List.mem_cons_self
    rw [List.foldl_cons, Table.set_of_not_has hnew, ih (by simpa using h), List.append_assoc,
      List.singleton_append]

/-- What was put behind the tables of a heap is still there. -/
theorem Heap.Grows.pushed {h h' : Heap} {t : Table} (hgrows : (h.push t).Grows h') :
    h.size < h'.size ∧ h'.get h.size = t := by
  have hlt : h.size < (h.push t).size := by simp
  refine ⟨Nat.lt_of_lt_of_le hlt hgrows.size, ?_⟩
  rw [hgrows.get hlt, get_push, if_pos rfl]

mutual

theorem Json.build_mirrors {h₀ h h' : Heap} {base : Nat} (hbase : base ≤ h.size) {v : Value}
    {j : Json} (hv : h₀.Records v j) (hgrows : (j.build h).2.Grows h') :
    h₀.Mirrors base h' v (j.build h).1 := by
  match j with
  | .null => cases hv; exact .nil
  | .bool b => cases hv; exact .bool b
  | .number x =>
    cases hv with
    | number hxy => exact .number hxy
  | .text s => cases hv; exact .text s
  | .array js =>
    cases hv with
    | list hitems => exact .list (Json.buildAll_mirrors hbase hitems hgrows)
  | .object members =>
    cases hv with
    | table hnames hkeys hvalues =>
      obtain ⟨hkeys', hvalues'⟩ := Json.buildMembers_mirrors hbase hvalues
        ((Heap.Grows.push _ _).trans hgrows)
      have hentries : Table.ofEntries (Json.buildMembers h members).1 =
          (Json.buildMembers h members).1 := by
        refine Table.foldl_set (t := []) ?_
        rw [List.nil_append, Heap.distinct_iff_nodup (by rw [hkeys', List.map_map]; rfl)]
        exact hnames
      have hsize := (Json.buildMembers_grows h members).size
      obtain ⟨hlt, hget⟩ := Heap.Grows.pushed hgrows
      rw [hentries] at hget
      refine .table ⟨Nat.le_trans hbase hsize, hlt⟩ ?_ ?_
      · rw [hget, hkeys', hkeys]
      · rwa [hget]

theorem Json.buildAll_mirrors {h₀ h h' : Heap} {base : Nat} (hbase : base ≤ h.size)
    {vs : List Value} {js : List Json} (hvs : List.Forall₂ h₀.Records vs js)
    (hgrows : (Json.buildAll h js).2.Grows h') :
    List.Forall₂ (h₀.Mirrors base h') vs (Json.buildAll h js).1 := by
  match js with
  | [] => cases hvs; exact .nil
  | j :: js =>
    cases hvs with
    | cons hv hvs =>
      have hj := j.build_grows h
      exact .cons (Json.build_mirrors hbase hv ((Json.buildAll_grows _ js).trans hgrows))
        (Json.buildAll_mirrors (Nat.le_trans hbase hj.size) hvs hgrows)

theorem Json.buildMembers_mirrors {h₀ h h' : Heap} {base : Nat} (hbase : base ≤ h.size)
    {vs : List Value} {members : List (String × Json)}
    (hvs : List.Forall₂ h₀.Records vs (members.map Prod.snd))
    (hgrows : (Json.buildMembers h members).2.Grows h') :
    Table.keys (Json.buildMembers h members).1 = members.map (fun e => Value.text e.1) ∧
      List.Forall₂ (h₀.Mirrors base h') vs (Table.values (Json.buildMembers h members).1) := by
  match members with
  | [] => cases hvs; exact ⟨rfl, .nil⟩
  | (name, j) :: members =>
    cases hvs with
    | cons hv hvs =>
      have hj := j.build_grows h
      obtain ⟨hkeys, hvalues⟩ :=
        Json.buildMembers_mirrors (Nat.le_trans hbase hj.size) hvs hgrows
      have hmirrors : h₀.Mirrors base h' _ (j.build h).1 :=
        Json.build_mirrors hbase hv ((Json.buildMembers_grows _ members).trans hgrows)
      exact ⟨congrArg (Value.text name :: ·) hkeys, .cons hmirrors hvalues⟩

end

/-! The round trip. -/

theorem Host.parse_eq {access : Access} (hallows : access.allows "JSON" = true) {text : String}
    {j : Json} (hread : Json.read text.toList = .ok j) (rest : List Value) (s : Session) :
    global access ["JSON", "parse"] (.text text :: rest) s = Eval.perform (.build j) s := by
  have hplan : globalPlan access s.heap ["JSON", "parse"] (.text text :: rest) =
      .ok (.build j) := by
    have harg : HostCall.textArg ⟨"/".intercalate ["JSON", "parse"], .text text :: rest⟩ 0 =
        .ok text := rfl
    rw [globalPlan, if_pos hallows, scopePlan, jsonPlan, document]
    simp only [harg, bind, Except.bind, hread]
    rfl
  exact global_of_plan hplan

/-- The text of data is given, and reading it in any session gives a value that mirrors the data in
new tables, with nothing else changed. -/
theorem Eval.parse_stringify (access : Access) (hallows : access.allows "JSON" = true)
    (s : Session) (v : Value) (hv : s.heap.IsData 127 v) (rest : List Value) :
    ∃ text, callMember access (.global ["JSON", "stringify"]) (v :: rest) s = .ok (.text text) s ∧
      ∀ (later : Session) (rest' : List Value), ∃ v' h',
        callMember access (.global ["JSON", "parse"]) (.text text :: rest') later =
          .ok v' { later with heap := h' } ∧
        later.heap.Grows h' ∧ s.heap.Mirrors later.heap.size h' v v' := by
  obtain ⟨j, hj, hd⟩ := hv.exists_json
  obtain ⟨hrecords, hfits⟩ := hv.records hd
  obtain ⟨j', hj', hrestates⟩ := hfits.read_write
  have hread : Json.read j.render.toList = .ok j' := by rw [Json.render, String.toList_ofList, hj']
  refine ⟨j.render, Host.stringify_eq hallows rest hj, fun later rest' =>
    ⟨(j'.build later.heap).1, (j'.build later.heap).2, ?_, j'.build_grows later.heap, ?_⟩⟩
  · exact Host.parse_eq hallows hread rest' later
  · exact Json.build_mirrors (Nat.le_refl _) (hrestates _ _ hrecords) (.refl _)

/-- A list that holds one table twice, with a key that is escaped and a negative number. -/
theorem Eval.parse_stringify_shared :
    ∃ text, callMember .all (.global ["JSON", "stringify"]) [.list [.table 0, .table 0]]
        { Session.initial with heap := ⟨#[[(.text "a\n", .number (-7))]]⟩ } =
      .ok (.text text) { Session.initial with heap := ⟨#[[(.text "a\n", .number (-7))]]⟩ } ∧
    ∃ v' h', callMember .all (.global ["JSON", "parse"]) [.text text] Session.initial =
        .ok v' { Session.initial with heap := h' } ∧
      Heap.Mirrors ⟨#[[(.text "a\n", .number (-7))]]⟩ 0 h' (.list [.table 0, .table 0]) v' := by
  have hseven : Number.IsSafe (-7) (-7) := ⟨by decide, by decide, by decide⟩
  have hdata : (Heap.mk #[[(.text "a\n", .number (-7))]]).IsData 127
      (.list [.table 0, .table 0]) := by
    refine .list fun v hv => ?_
    obtain rfl : v = .table 0 := by simpa using hv
    refine .table (List.pairwise_singleton _ _) (fun k hk => ?_) (fun w hw => ?_)
    · exact ⟨"a\n", List.mem_singleton.1 hk⟩
    · rw [List.mem_singleton.1 hw]
      exact .number _ hseven
  obtain ⟨text, hstringify, hparse⟩ := parse_stringify .all rfl
    { Session.initial with heap := ⟨#[[(.text "a\n", .number (-7))]]⟩ } _ hdata []
  obtain ⟨v', h', hv', -, hmirrors⟩ := hparse .initial []
  exact ⟨text, hstringify, v', h', hv', hmirrors⟩

end Lisplet
