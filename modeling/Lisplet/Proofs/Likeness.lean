import Lisplet.Interpreter
import Lisplet.Proofs.Nesting
import Mathlib.Data.List.Forall2

/-!
Likeness of what two runs deal with. A likeness says in which respects two runs may differ: which
names and tables they keep to, which locations in forms stand for one another, and which numbers of
functions. Forms, values and heaps are alike if they differ in nothing else. No equality of the
language and no text of a value tells like values apart.
-/

namespace Lisplet

structure Likeness where
  name : String → Prop
  place : Location → Location → Prop
  table : TableId → Prop
  number : Nat → Nat → Prop
  probe : Probe → Prop
  /-- Functions are told apart by their numbers in both runs or in neither. -/
  number_iff {i j i' j' : Nat} (h : number i j) (h' : number i' j') : i = i' ↔ j = j'
  place_eq {l l' : Location} (hp : probe .trace) (h : place l l') : l = l'
  name_all (hp : probe .locals) (x : String) : name x

/-- The same likeness, whatever the names. -/
def Likeness.anyName (k : Likeness) : Likeness :=
  { k with name := fun _ => True, name_all := fun _ _ => trivial }

inductive Form.Like (k : Likeness) : Form → Form → Prop
  | atom (a : Atom) : Like k (.atom a) (.atom a)
  | symbol {x : String} (h : k.name x) : Like k (.symbol x) (.symbol x)
  | call {items items' : List Form} {l l' : Location} (hl : k.place l l')
      (h : List.Forall₂ (Like k) items items') : Like k (.call items l) (.call items' l')
  | quoted {items items' : List Form} {l l' : Location} (hl : k.place l l')
      (h : List.Forall₂ (Like k) items items') : Like k (.quoted items l) (.quoted items' l')
  | vector {items items' : List Form} (h : List.Forall₂ (Like k) items items') :
      Like k (.vector items) (.vector items')
  | table {entries entries' : List (Atom × Form)}
      (hk : entries.map Prod.fst = entries'.map Prod.fst)
      (h : List.Forall₂ (Like k) (entries.map Prod.snd) (entries'.map Prod.snd)) :
      Like k (.table entries) (.table entries')

structure Variant.Like (k : Likeness) (a b : Variant) : Prop where
  params : a.params = b.params
  body : List.Forall₂ (Form.Like k) a.body b.body

inductive Function.Like (k : Likeness) : Function → Function → Prop
  | special (form : SpecialForm) : Like k (.special form) (.special form)
  | primitive (op : Primitive) : Like k (.primitive op) (.primitive op)
  | apply : Like k .apply .apply
  | probe {p : Probe} (h : k.probe p) : Like k (.probe p) (.probe p)
  | member {i j : Nat} (h : k.number i j) (m : Member) : Like k (.member i m) (.member j m)
  | closure {i j : Nat} (h : k.number i j) (name : Option String) {vs ws : List Variant}
      (hv : List.Forall₂ (Variant.Like k) vs ws) : Like k (.closure i name vs) (.closure j name ws)

inductive Value.Like (k : Likeness) : Value → Value → Prop
  | nil : Like k .nil .nil
  | bool (b : Bool) : Like k (.bool b) (.bool b)
  | number (x : Number) : Like k (.number x) (.number x)
  | text (s : String) : Like k (.text s) (.text s)
  | list {items items' : List Value} (h : List.Forall₂ (Like k) items items') :
      Like k (.list items) (.list items')
  | table {id : TableId} (h : k.table id) : Like k (.table id) (.table id)
  | function {f g : Function} (h : f.Like k g) : Like k (.function f) (.function g)

theorem map_eq_of_forall₂ {α β γ : Type} {R : α → β → Prop} {xs : List α} {ys : List β}
    (h : List.Forall₂ R xs ys) {f : α → γ} {g : β → γ} (hfg : ∀ a b, R a b → f a = g b) :
    xs.map f = ys.map g := by
  induction h with
  | nil => rfl
  | cons hab _ ih => rw [List.map_cons, List.map_cons, hfg _ _ hab, ih]

theorem eq_of_forall₂ {α : Type} {R : α → α → Prop} {xs ys : List α}
    (h : List.Forall₂ R xs ys) (he : ∀ a b, R a b → a = b) : xs = ys := by
  simpa only [List.map_id] using map_eq_of_forall₂ (f := id) (g := id) h he

variable {k : Likeness}

namespace Form.Like

theorem induct {P : Form → Form → Prop} (atom : ∀ a, P (.atom a) (.atom a))
    (symbol : ∀ {x}, k.name x → P (.symbol x) (.symbol x))
    (call : ∀ {items items' l l'}, k.place l l' → List.Forall₂ P items items' →
      P (.call items l) (.call items' l'))
    (quoted : ∀ {items items' l l'}, k.place l l' → List.Forall₂ P items items' →
      P (.quoted items l) (.quoted items' l'))
    (vector : ∀ {items items'}, List.Forall₂ P items items' → P (.vector items) (.vector items'))
    (table : ∀ {entries entries' : List (Atom × Form)},
      entries.map Prod.fst = entries'.map Prod.fst →
      List.Forall₂ P (entries.map Prod.snd) (entries'.map Prod.snd) →
      P (.table entries) (.table entries'))
    {f g : Form} (h : f.Like k g) : P f g :=
  @Form.Like.rec k (fun f g _ => P f g) (fun fs gs _ => List.Forall₂ P fs gs)
    atom symbol (fun hl _ ih => call hl ih) (fun hl _ ih => quoted hl ih) (fun _ ih => vector ih)
    (fun hk _ ih => table hk ih) .nil (fun _ _ h hs => .cons h hs) f g h

theorem anyName {f g : Form} (h : f.Like k g) : f.Like k.anyName g :=
  h.induct .atom (fun _ => .symbol trivial) (fun hl h => .call hl h) (fun hl h => .quoted hl h)
    .vector .table

/-- Forms that may not differ in their locations do not differ. -/
theorem eq (hp : ∀ {l l'}, k.place l l' → l = l') {f g : Form} (h : f.Like k g) : f = g := by
  refine h.induct (fun a => rfl) (fun h => rfl) ?_ ?_ ?_ ?_
  · intro items items' l l' hl h
    rw [hp hl, eq_of_forall₂ h fun _ _ he => he]
  · intro items items' l l' hl h
    rw [hp hl, eq_of_forall₂ h fun _ _ he => he]
  · intro items items' h
    rw [eq_of_forall₂ h fun _ _ he => he]
  · intro entries entries' hk h
    rw [← List.zip_unzip entries, ← List.zip_unzip entries', List.unzip_eq_map,
      List.unzip_eq_map, hk, eq_of_forall₂ h fun _ _ he => he]

mutual

/-- The text of a form does not show where it stands. -/
theorem render {f g : Form} (h : f.Like k g) : f.render = g.render := by
  cases h with
  | atom a => rfl
  | symbol h => rfl
  | call hl h => simp only [Form.render, renderItems h]
  | quoted hl h => simp only [Form.render, renderItems h]
  | vector h => simp only [Form.render, renderItems h]
  | table hk h => simp only [Form.render, renderEntries hk h]

theorem renderItems {fs gs : List Form} (h : List.Forall₂ (Form.Like k) fs gs) :
    Form.renderItems fs = Form.renderItems gs := by
  cases h with
  | nil => rfl
  | cons h hs => simp only [Form.renderItems, render h, renderItems hs]

theorem renderEntries {entries entries' : List (Atom × Form)}
    (hk : entries.map Prod.fst = entries'.map Prod.fst)
    (h : List.Forall₂ (Form.Like k) (entries.map Prod.snd) (entries'.map Prod.snd)) :
    Form.renderEntries entries = Form.renderEntries entries' := by
  cases entries with
  | nil =>
    obtain rfl : entries' = [] := List.map_eq_nil_iff.1 hk.symm
    rfl
  | cons e entries =>
    cases entries' with
    | nil => cases hk
    | cons e' entries' =>
      simp only [List.map_cons, List.cons.injEq, List.forall₂_cons] at hk h
      simp only [Form.renderEntries, hk.1, render h.1, renderEntries hk.2 h.2]

end

end Form.Like

namespace Form

/-- The name stands in the form as a symbol. -/
def Mentions (f : Form) (x : String) : Prop := (symbol x).Occurs f

theorem sizeOf_lt_of_mem_children {f g : Form} (h : g ∈ f.children) : sizeOf g < sizeOf f := by
  cases f with
  | atom | symbol => cases h
  | call items l | quoted items l | vector items =>
    have hlt := List.sizeOf_lt_of_mem h
    simp only [call.sizeOf_spec, quoted.sizeOf_spec, vector.sizeOf_spec]
    simp only [children] at hlt
    omega
  | table entries =>
    obtain ⟨e, he, rfl⟩ := List.mem_map.1 h
    have hlt := List.sizeOf_lt_of_mem he
    obtain ⟨key, form⟩ := e
    simp only [Prod.mk.sizeOf_spec] at hlt
    simp only [table.sizeOf_spec]
    omega

theorem like_self (hp : ∀ l, k.place l l) (f : Form)
    (hf : ∀ x, f.Mentions x → k.name x) : f.Like k f := by
  have hchildren : List.Forall₂ (Form.Like k) f.children f.children := by
    refine List.forall₂_same.2 fun g hg => ?_
    have hlt := sizeOf_lt_of_mem_children hg
    exact like_self hp g fun x hx => hf x (.inside hg hx)
  cases f with
  | atom a => exact .atom a
  | symbol x => exact .symbol (hf x .self)
  | call items l => exact .call (hp l) hchildren
  | quoted items l => exact .quoted (hp l) hchildren
  | vector items => exact .vector hchildren
  | table entries => exact .table rfl hchildren
termination_by sizeOf f

end Form

theorem Variant.Like.eq (hp : ∀ {l l'}, k.place l l' → l = l') {a b : Variant} (h : a.Like k b) :
    a = b := by
  obtain ⟨params, body⟩ := a
  obtain ⟨params', body'⟩ := b
  obtain rfl : params = params' := h.params
  obtain rfl : body = body' := eq_of_forall₂ h.body fun _ _ hf => hf.eq hp
  rfl

theorem Likeness.number_beq (k : Likeness) {i j i' j' : Nat} (h : k.number i j)
    (h' : k.number i' j') : (i == i') = (j == j') := by
  rw [Bool.eq_iff_iff, beq_iff_eq, beq_iff_eq]
  exact k.number_iff h h'

theorem Function.Like.same {f f' g g' : Function} (hf : f.Like k f') (hg : g.Like k g') :
    f.same g = f'.same g' := by
  cases hf with
  | member h m =>
    cases hg with
    | member h' m' => exact k.number_beq h h'
    | _ => rfl
  | closure h name hv =>
    cases hg with
    | closure h' name' hv' => exact k.number_beq h h'
    | _ => rfl
  | _ => cases hg <;> rfl

theorem Function.Like.text {f g : Function} (h : f.Like k g) : f.text = g.text := by
  cases h with
  | closure h name hv => cases name <;> rfl
  | _ => rfl

namespace Value.Like

theorem ofAtom (a : Atom) : (Value.ofAtom a).Like k (.ofAtom a) := by
  cases a with
  | nil => exact .nil
  | bool b => exact .bool b
  | number x => exact .number x
  | text s => exact .text s

theorem texts {α : Type} (f : α → String) (xs : List α) :
    List.Forall₂ (Value.Like k) (xs.map fun x => .text (f x)) (xs.map fun x => .text (f x)) := by
  rw [List.forall₂_map_left_iff, List.forall₂_map_right_iff]
  exact List.forall₂_same.2 fun x _ => .text (f x)

theorem kind {v w : Value} (h : v.Like k w) : v.kind = w.kind := by
  cases h <;> rfl

theorem isTruthy {v w : Value} (h : v.Like k w) : v.isTruthy = w.isTruthy := by
  cases h <;> rfl

mutual

theorem same {v v' w w' : Value} (hv : v.Like k v') (hw : w.Like k w') :
    v.same w = v'.same w' := by
  cases hv with
  | list hvs =>
    cases hw with
    | list hws => simp only [Value.same, sameAll hvs hws]
    | _ => rfl
  | function hf =>
    cases hw with
    | function hg => simp only [Value.same, hf.same hg]
    | _ => rfl
  | _ => cases hw <;> rfl

theorem sameAll {vs vs' ws ws' : List Value} (hv : List.Forall₂ (Value.Like k) vs vs')
    (hw : List.Forall₂ (Value.Like k) ws ws') : Value.sameAll vs ws = Value.sameAll vs' ws' := by
  cases hv with
  | nil => cases hw <;> rfl
  | cons hv hvs =>
    cases hw with
    | nil => rfl
    | cons hw hws => simp only [Value.sameAll, same hv hw, sameAll hvs hws]

end

theorem sameKey {v v' w w' : Value} (hv : v.Like k v') (hw : w.Like k w') :
    v.sameKey w = v'.sameKey w' := by
  have hsame := hv.same hw
  cases hv with
  | number x => cases hw <;> rfl
  | _ => exact hsame

theorem looseNumeric {v v' w w' : Value} (hv : v.Like k v') (hw : w.Like k w') :
    v.looseNumeric w = v'.looseNumeric w' := by
  have hsame := hv.same hw
  cases hv with
  | number x => cases hw <;> rfl
  | text s => cases hw <;> rfl
  | _ => exact hsame

theorem loose {v v' w w' : Value} (hv : v.Like k v') (hw : w.Like k w') :
    v.loose w = v'.loose w' := by
  have hvw := hv.looseNumeric hw
  have hbool (b : Bool) := (Like.number (k := k) (Value.ofBool b)).looseNumeric hv
  cases hv with
  | nil => cases hw <;> rfl
  | bool b =>
    have hnum := (Like.number (Value.ofBool b)).looseNumeric hw
    cases hw with
    | nil => rfl
    | bool b' => rfl
    | _ => exact hnum
  | _ =>
    cases hw with
    | nil => rfl
    | bool b => exact hbool b
    | _ => exact hvw

mutual

theorem render {v w : Value} (h : v.Like k w) {table table' : TableId → String}
    (ht : ∀ id, k.table id → table id = table' id) (quoted : Bool) :
    v.render table quoted = w.render table' quoted := by
  cases h with
  | list h => simp only [Value.render, renderAll h ht]
  | table h => exact ht _ h
  | function h => exact h.text
  | _ => rfl

theorem renderAll {vs ws : List Value} (h : List.Forall₂ (Value.Like k) vs ws)
    {table table' : TableId → String} (ht : ∀ id, k.table id → table id = table' id) :
    Value.renderAll table vs = Value.renderAll table' ws := by
  cases h with
  | nil => rfl
  | cons h hs => simp only [Value.renderAll, render h ht, renderAll hs ht]

end

mutual

theorem json {v w : Value} (h : v.Like k w) {table table' : TableId → Option Json}
    (ht : ∀ id, k.table id → table id = table' id) :
    Json.ofValue? table v = Json.ofValue? table' w := by
  cases h with
  | list h => simp only [Json.ofValue?, jsonAll h ht]
  | table h => exact ht _ h
  | _ => rfl

theorem jsonAll {vs ws : List Value} (h : List.Forall₂ (Value.Like k) vs ws)
    {table table' : TableId → Option Json} (ht : ∀ id, k.table id → table id = table' id) :
    Json.ofValues? table vs = Json.ofValues? table' ws := by
  cases h with
  | nil => rfl
  | cons h hs => simp only [Json.ofValues?, json h ht, jsonAll hs ht]

end

end Value.Like

/-- What is kept when one goes from lists to their items, and makes tables and functions like
themselves, makes values like themselves. -/
theorem Value.like_of {P : Value → Prop}
    (hitem : ∀ {items}, P (.list items) → ∀ v ∈ items, P v)
    (htable : ∀ {id}, P (.table id) → k.table id)
    (hfunction : ∀ {f}, P (.function f) → f.Like k f) (v : Value) (hv : P v) : v.Like k v := by
  match v with
  | .nil => exact .nil
  | .bool b => exact .bool b
  | .number x => exact .number x
  | .text s => exact .text s
  | .list items =>
    refine .list (List.forall₂_same.2 fun w hw => ?_)
    have hlt := List.sizeOf_lt_of_mem hw
    exact Value.like_of hitem htable hfunction w (hitem hv w hw)
  | .table id => exact .table (htable hv)
  | .function f => exact .function (hfunction hv)
termination_by sizeOf v

/-- What a function holds decides whether it is like itself. -/
theorem Function.like_self (hplace : ∀ l, k.place l l) (f : Function)
    (hprobe : ∀ p, f = .probe p → k.probe p)
    (hmember : ∀ i m, f = .member i m → k.number i i)
    (hclosure : ∀ i name variants, f = .closure i name variants → k.number i i ∧
      ∀ variant ∈ variants, ∀ g ∈ variant.body, ∀ x, g.Mentions x → k.name x) : f.Like k f := by
  cases f with
  | special form => exact .special form
  | primitive op => exact .primitive op
  | apply => exact .apply
  | probe p => exact .probe (hprobe p rfl)
  | member i m => exact .member (hmember i m rfl) m
  | closure i name variants =>
    obtain ⟨hnumber, hbody⟩ := hclosure i name variants rfl
    refine .closure hnumber name (List.forall₂_same.2 fun variant hv => ⟨rfl, ?_⟩)
    exact List.forall₂_same.2 fun g hg => g.like_self hplace (hbody variant hv g hg)

/-- Nothing may differ. -/
def Likeness.same : Likeness where
  name _ := True
  place := Eq
  table _ := True
  number := Eq
  probe _ := True
  number_iff := by
    rintro i j i' j' rfl rfl
    rfl
  place_eq _ h := h
  name_all _ _ := trivial

theorem Form.like_same (f : Form) : f.Like .same f := f.like_self (fun _ => rfl) fun _ _ => trivial

theorem Function.like_same (f : Function) : f.Like .same f :=
  f.like_self (fun _ => rfl) (fun _ _ => trivial) (fun _ _ _ => rfl)
    fun _ _ _ _ => ⟨rfl, fun _ _ _ _ _ _ => trivial⟩

theorem Value.like_same (v : Value) : v.Like .same v :=
  v.like_of (P := fun _ => True) (fun _ _ _ => trivial) (fun _ => trivial)
    (fun _ => Function.like_same _) trivial

/-! Tables and heaps. -/

def Entry.Like (k : Likeness) (e e' : Value × Value) : Prop := e.1.Like k e'.1 ∧ e.2.Like k e'.2

def Table.Like (k : Likeness) : Table → Table → Prop := List.Forall₂ (Entry.Like k)

namespace Table.Like

variable {t t' : Table} {key key' value value' : Value}

theorem get? (h : t.Like k t') (hk : key.Like k key') :
    Option.Rel (Value.Like k) (t.get? key) (t'.get? key') := by
  induction h with
  | nil => exact .none
  | cons he _ ih =>
    simp only [Table.get?, he.1.sameKey hk]
    split
    · exact .some he.2
    · exact ih

theorem has (h : t.Like k t') (hk : key.Like k key') : t.has key = t'.has key' := by
  induction h with
  | nil => rfl
  | cons he _ ih =>
    simp only [Table.has, List.any_cons, he.1.sameKey hk] at ih ⊢
    rw [ih]

theorem set (h : t.Like k t') (hk : key.Like k key') (hv : value.Like k value') :
    (t.set key value).Like k (t'.set key' value') := by
  induction h with
  | nil => exact .cons ⟨hk, hv⟩ .nil
  | cons he hes ih =>
    simp only [Table.set, he.1.sameKey hk]
    split
    · exact .cons ⟨he.1, hv⟩ hes
    · exact .cons he ih

theorem erase (h : t.Like k t') (hk : key.Like k key') :
    (t.erase key).Like k (t'.erase key') := by
  induction h with
  | nil => exact .nil
  | cons he hes ih =>
    simp only [Table.erase, he.1.sameKey hk]
    split
    · exact hes
    · exact .cons he ih

theorem ofEntries {entries entries' : List (Value × Value)}
    (h : List.Forall₂ (Entry.Like k) entries entries') :
    (Table.ofEntries entries).Like k (Table.ofEntries entries') := by
  have hfold (t t' : Table) (ht : t.Like k t') :
      Table.Like k (entries.foldl (fun t e => t.set e.1 e.2) t)
        (entries'.foldl (fun t e => t.set e.1 e.2) t') := by
    induction h generalizing t t' with
    | nil => exact ht
    | cons he _ ih => exact ih _ _ (ht.set he.1 he.2)
  exact hfold [] [] .nil

theorem pairUp : ∀ {items items' : List Value}, List.Forall₂ (Value.Like k) items items' →
    List.Forall₂ (Entry.Like k) (Table.pairUp items) (Table.pairUp items')
  | _, _, .nil => .nil
  | _, _, .cons hk .nil => .cons ⟨hk, .nil⟩ .nil
  | _, _, .cons hk (.cons hv h) => .cons ⟨hk, hv⟩ (pairUp h)

theorem keys (h : t.Like k t') : List.Forall₂ (Value.Like k) t.keys t'.keys := by
  unfold Table.keys
  rw [List.forall₂_map_left_iff, List.forall₂_map_right_iff]
  exact h.imp fun _ _ he => he.1

theorem values (h : t.Like k t') : List.Forall₂ (Value.Like k) t.values t'.values := by
  unfold Table.values
  rw [List.forall₂_map_left_iff, List.forall₂_map_right_iff]
  exact h.imp fun _ _ he => he.2

theorem setMembers (h : t.Like k t') {doc doc' : Value → Option Json}
    {name name' : Value → String} (hd : ∀ {v w}, v.Like k w → doc v = doc' w)
    (hn : ∀ {v w}, v.Like k w → name v = name' w) (members : List (String × Json)) :
    Json.setMembers doc name members t = Json.setMembers doc' name' members t' := by
  induction h generalizing members with
  | nil => rfl
  | @cons e e' _ _ he _ ih =>
    obtain ⟨key, value⟩ := e
    obtain ⟨key', value'⟩ := e'
    simp only [Json.setMembers, hd he.2, hn he.1, ih]

end Table.Like

namespace Heap

@[simp] theorem size_push (h : Heap) (t : Table) : (h.push t).size = h.size + 1 := by
  simp [size, push]

@[simp] theorem size_put (h : Heap) (id : TableId) (t : Table) : (h.put id t).size = h.size := by
  simp [size, put]

theorem get_of_size_le {h : Heap} {id : TableId} (hid : h.size ≤ id) : h.get id = [] := by
  simp only [get, Array.getD_eq_getD_getElem?, Array.getElem?_eq_none hid, Option.getD_none]

theorem get_push (h : Heap) (t : Table) (id : TableId) :
    (h.push t).get id = if id = h.size then t else h.get id := by
  simp only [get, push, size, Array.getD_eq_getD_getElem?, Array.getElem?_push]
  split <;> rfl

theorem get_put (h : Heap) (id : TableId) (t : Table) (other : TableId) :
    (h.put id t).get other = if id = other ∧ id < h.size then t else h.get other := by
  simp only [get, put, size, Array.getD_eq_getD_getElem?, Array.getElem?_setIfInBounds]
  grind

/-- The runs keep to the same tables, every one still to be made among them, and these hold like
values. -/
structure Like (k : Likeness) (h h' : Heap) : Prop where
  size : h.size = h'.size
  get {id : TableId} (hid : k.table id) : (h.get id).Like k (h'.get id)
  further {id : TableId} (hid : h.size ≤ id) : k.table id

/-- The tables that the likeness keeps to lead to nothing but values that are like themselves. -/
theorem like_of {P : Value → Prop} {h : Heap} (hlike : ∀ {v}, P v → v.Like k v)
    (hentry : ∀ {id}, P (.table id) → ∀ e ∈ h.get id, P e.1 ∧ P e.2)
    (htable : ∀ {id}, k.table id → P (.table id) ∨ h.size ≤ id)
    (hfurther : ∀ {id}, h.size ≤ id → k.table id) : h.Like k h := by
  refine ⟨rfl, fun {id} hid => ?_, hfurther⟩
  rcases htable hid with hP | hsize
  · refine List.forall₂_same.2 fun e he => ?_
    obtain ⟨hkey, hvalue⟩ := hentry hP e he
    exact ⟨hlike hkey, hlike hvalue⟩
  · rw [get_of_size_le hsize]
    exact .nil

namespace Like

variable {h h' : Heap}

theorem value_size (hh : h.Like k h') : (Value.table h.size).Like k (.table h'.size) :=
  hh.size ▸ .table (hh.further (Nat.le_refl _))

theorem push (hh : h.Like k h') {t t' : Table} (ht : t.Like k t') :
    (h.push t).Like k (h'.push t') where
  size := by simp [hh.size]
  get hid := by
    rw [get_push, get_push, hh.size]
    split
    · exact ht
    · exact hh.get hid
  further hid := by
    rw [size_push] at hid
    exact hh.further (by omega)

theorem put (hh : h.Like k h') {t t' : Table} (ht : t.Like k t') (id : TableId) :
    (h.put id t).Like k (h'.put id t') where
  size := by simp [hh.size]
  get hid := by
    rw [get_put, get_put, hh.size]
    split
    · exact ht
    · exact hh.get hid
  further hid := hh.further (by simpa using hid)

theorem renderTable (hh : h.Like k h') (levels : Nat) (within : List TableId) {id : TableId}
    (hid : k.table id) : h.renderTable levels within id = h'.renderTable levels within id := by
  induction levels generalizing within id with
  | zero => rfl
  | succ levels ih =>
    have hinner {v w : Value} (hv : v.Like k w) (quoted : Bool) :
        v.render (h.renderTable levels (id :: within)) quoted =
          w.render (h'.renderTable levels (id :: within)) quoted :=
      hv.render (fun _ => ih (id :: within)) quoted
    simp only [Heap.renderTable]
    rw [map_eq_of_forall₂ (hh.get hid) fun e e' he => ?_]
    simp only [hinner he.1, hinner he.2]

theorem displayWithin (hh : h.Like k h') (within : List TableId) {v w : Value} (hv : v.Like k w) :
    h.displayWithin within v = h'.displayWithin within w := by
  unfold Heap.displayWithin
  rw [hh.size]
  exact hv.render (fun _ => hh.renderTable _ within) false

theorem display (hh : h.Like k h') {v w : Value} (hv : v.Like k w) :
    h.display v = h'.display w :=
  hh.displayWithin [] hv

theorem inspect (hh : h.Like k h') {v w : Value} (hv : v.Like k w) :
    h.inspect v = h'.inspect w := by
  unfold Heap.inspect
  rw [hh.size]
  exact hv.render (fun _ => hh.renderTable _ []) true

theorem displayAll (hh : h.Like k h') {vs ws : List Value}
    (hv : List.Forall₂ (Value.Like k) vs ws) : h.displayAll vs = h'.displayAll ws := by
  unfold Heap.displayAll
  rw [map_eq_of_forall₂ hv fun _ _ => hh.display]

theorem jsonOfTable? (hh : h.Like k h') (levels : Nat) (within : List TableId) {id : TableId}
    (hid : k.table id) : h.jsonOfTable? levels within id = h'.jsonOfTable? levels within id := by
  induction levels generalizing within id with
  | zero => rfl
  | succ levels ih =>
    simp only [Heap.jsonOfTable?]
    rw [(hh.get hid).setMembers (fun hv => hv.json fun _ => ih (id :: within))
      fun hv => hh.displayWithin _ hv]

theorem json? (hh : h.Like k h') {v w : Value} (hv : v.Like k w) : h.json? v = h'.json? w := by
  unfold Heap.json?
  rw [hh.size]
  exact hv.json fun _ => hh.jsonOfTable? _ []

end Like

end Heap

end Lisplet
