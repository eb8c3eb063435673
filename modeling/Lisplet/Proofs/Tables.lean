import Lisplet.Proofs.LikeCalls

/-!
The laws of tables. The equality of keys is symmetric and transitive but not reflexive: a list that
holds NaN is no key it could be found under. Where no two keys of a table are equal, the table is a
map in the order in which its keys came in; and no operation makes two keys equal, so every effect
of a call keeps all tables that way.
-/

namespace Lisplet

/-! The equality of keys. -/

theorem Number.beq_comm (x y : Number) : (x == y) = (y == x) := by
  rw [Bool.eq_iff_iff, Float.beq_iff_ne_nan_and_eq, Float.beq_iff_ne_nan_and_eq]
  constructor
  · rintro ⟨hx, hy, rfl | ⟨rfl, rfl⟩ | ⟨rfl, rfl⟩⟩ <;> simp_all
  · rintro ⟨hx, hy, rfl | ⟨rfl, rfl⟩ | ⟨rfl, rfl⟩⟩ <;> simp_all

theorem Number.beq_trans {x y z : Number} (hxy : (x == y) = true) (hyz : (y == z) = true) :
    (x == z) = true := by
  rw [Float.beq_iff_ne_nan_and_eq] at *
  obtain ⟨hx, -, hxy⟩ := hxy
  obtain ⟨-, hz, hyz⟩ := hyz
  refine ⟨hx, hz, ?_⟩
  rcases hxy with rfl | ⟨rfl, rfl⟩ | ⟨rfl, rfl⟩
  · exact hyz
  · rcases hyz with rfl | ⟨-, rfl⟩ | ⟨-, rfl⟩ <;> simp
  · rcases hyz with rfl | ⟨-, rfl⟩ | ⟨-, rfl⟩ <;> simp

theorem Number.isNaN_of_beq {x y : Number} (h : (x == y) = true) :
    x.isNaN = false ∧ y.isNaN = false := by
  rw [Float.beq_iff_ne_nan_and_eq] at h
  simp [Float.isNaN_eq_decide_eq_nan, h.1, h.2.1]

theorem Function.same_comm (f g : Function) : f.same g = g.same f := by
  cases f <;> cases g <;> simp only [same, Bool.beq_comm]

theorem Function.same_trans {f g h : Function} (hfg : f.same g = true) (hgh : g.same h = true) :
    f.same h = true := by
  cases f <;> cases g <;> cases h <;> simp_all [same]

namespace Value

mutual

theorem same_comm (v w : Value) : v.same w = w.same v := by
  cases v with
  | number x =>
    cases w with
    | number y => exact Number.beq_comm x y
    | _ => rfl
  | list vs =>
    cases w with
    | list ws => exact sameAll_comm vs ws
    | _ => rfl
  | function f =>
    cases w with
    | function g => exact f.same_comm g
    | _ => rfl
  | _ => cases w <;> simp only [same, Bool.beq_comm]

theorem sameAll_comm (vs ws : List Value) : sameAll vs ws = sameAll ws vs := by
  cases vs with
  | nil => cases ws <;> rfl
  | cons v vs =>
    cases ws with
    | nil => rfl
    | cons w ws => rw [sameAll, sameAll, same_comm v w, sameAll_comm vs ws]

end

mutual

theorem same_trans {u v w : Value} (huv : u.same v = true) (hvw : v.same w = true) :
    u.same w = true := by
  cases u with
  | number x =>
    cases v with
    | number y =>
      cases w with
      | number z => exact Number.beq_trans huv hvw
      | _ => cases hvw
    | _ => cases huv
  | list us =>
    cases v with
    | list vs =>
      cases w with
      | list ws => exact sameAll_trans huv hvw
      | _ => cases hvw
    | _ => cases huv
  | function f =>
    cases v with
    | function g =>
      cases w with
      | function h => exact Function.same_trans huv hvw
      | _ => cases hvw
    | _ => cases huv
  | _ => cases v <;> cases w <;> simp_all [same]

theorem sameAll_trans {us vs ws : List Value} (huv : sameAll us vs = true)
    (hvw : sameAll vs ws = true) : sameAll us ws = true := by
  cases us with
  | nil =>
    cases vs with
    | nil => exact hvw
    | cons v vs => cases huv
  | cons u us =>
    cases vs with
    | nil => cases huv
    | cons v vs =>
      cases ws with
      | nil => cases hvw
      | cons w ws =>
        simp only [sameAll, Bool.and_eq_true] at huv hvw ⊢
        exact ⟨same_trans huv.1 hvw.1, sameAll_trans huv.2 hvw.2⟩

end

def isNaN : Value → Bool
  | number x => x.isNaN
  | _ => false

theorem isNaN_of_same {v w : Value} (h : v.same w = true) : v.isNaN = false ∧ w.isNaN = false := by
  cases v with
  | number x =>
    cases w with
    | number y => exact Number.isNaN_of_beq h
    | _ => cases h
  | _ =>
    cases w with
    | number y => cases h
    | _ => exact ⟨rfl, rfl⟩

theorem sameKey_eq (v w : Value) : v.sameKey w = (v.same w || v.isNaN && w.isNaN) := by
  cases v with
  | number x =>
    cases w with
    | number y => rfl
    | _ => simp [sameKey, same, isNaN]
  | _ => simp [sameKey, isNaN]

theorem sameKey_comm (v w : Value) : v.sameKey w = w.sameKey v := by
  rw [sameKey_eq, sameKey_eq, same_comm, Bool.and_comm]

theorem sameKey_trans {u v w : Value} (huv : u.sameKey v = true) (hvw : v.sameKey w = true) :
    u.sameKey w = true := by
  simp only [sameKey_eq, Bool.or_eq_true, Bool.and_eq_true] at huv hvw ⊢
  rcases huv with huv | ⟨hu, hv⟩
  · rcases hvw with hvw | ⟨hv, -⟩
    · exact .inl (same_trans huv hvw)
    · rw [(isNaN_of_same huv).2] at hv
      cases hv
  · rcases hvw with hvw | ⟨-, hw⟩
    · rw [(isNaN_of_same hvw).1] at hv
      cases hv
    · exact .inr ⟨hu, hw⟩

/-- Equal keys are equal to the same keys. -/
theorem sameKey_congr {u v : Value} (h : u.sameKey v = true) (w : Value) :
    u.sameKey w = v.sameKey w := by
  rw [Bool.eq_iff_iff]
  exact ⟨sameKey_trans (sameKey_comm u v ▸ h), sameKey_trans h⟩

end Value

/-! What becomes of a table. -/

namespace Table

variable (t : Table) (key key' value : Value)

theorem has_eq_isSome : t.has key = (t.get? key).isSome := by
  induction t with
  | nil => rfl
  | cons e t ih =>
    simp only [has, List.any_cons, get?] at ih ⊢
    split
    · simp_all
    · simp_all

theorem get?_set :
    (t.set key value).get? key' = if key.sameKey key' then some value else t.get? key' := by
  induction t with
  | nil => rfl
  | cons e t ih =>
    obtain ⟨k, v⟩ := e
    by_cases hk : k.sameKey key = true
    · have hcongr := Value.sameKey_congr hk key'
      simp only [set, hk, if_true, get?, hcongr]
      split <;> rfl
    · simp only [set, hk, if_false, get?, ih, Bool.false_eq_true]
      by_cases hk' : k.sameKey key' = true
      · -- an entry found under `key'` would be the one set if the keys were equal
        have hne : ¬key.sameKey key' = true := by
          intro hkey
          rw [Value.sameKey_comm] at hkey
          exact hk (Value.sameKey_trans hk' hkey)
        simp [hk', hne]
      · simp [hk']

variable {t key key' value}

theorem keys_set_of_has (h : t.has key = true) (value : Value) :
    (t.set key value).keys = t.keys := by
  induction t with
  | nil => cases h
  | cons e t ih =>
    obtain ⟨k, v⟩ := e
    rw [set]
    split
    · rfl
    · rename_i hk
      have hrest : has t key = true := by simpa [has, hk] using h
      simpa [keys] using ih hrest

theorem set_of_not_has (h : t.has key = false) (value : Value) :
    t.set key value = t ++ [(key, value)] := by
  induction t with
  | nil => rfl
  | cons e t ih =>
    obtain ⟨k, v⟩ := e
    simp only [has, List.any_cons, Bool.or_eq_false_iff] at h
    rw [set, h.1, if_neg (by simp), ih h.2, List.cons_append]

theorem exists_erase_of_has (h : t.has key = true) :
    ∃ before e after, t = before ++ e :: after ∧ e.1.sameKey key = true ∧
      t.erase key = before ++ after := by
  induction t with
  | nil => cases h
  | cons e t ih =>
    obtain ⟨k, v⟩ := e
    rw [erase]
    split
    · rename_i hk
      exact ⟨[], (k, v), t, rfl, hk, rfl⟩
    · rename_i hk
      have hrest : has t key = true := by simpa [has, hk] using h
      obtain ⟨before, e, after, rfl, he, herase⟩ := ih hrest
      exact ⟨(k, v) :: before, e, after, rfl, he, by rw [herase, List.cons_append]⟩

theorem erase_of_not_has (h : t.has key = false) : t.erase key = t := by
  induction t with
  | nil => rfl
  | cons e t ih =>
    obtain ⟨k, v⟩ := e
    simp only [has, List.any_cons, Bool.or_eq_false_iff] at h
    rw [erase, h.1, if_neg (by simp), ih h.2]

/-- No two entries have equal keys. -/
def Distinct (t : Table) : Prop := t.keys.Pairwise fun k k' => k.sameKey k' = false

theorem distinct_nil : Distinct [] := .nil

theorem has_eq_false_iff : t.has key = false ↔ ∀ k ∈ t.keys, k.sameKey key = false := by
  simp [has, keys]

theorem Distinct.set (h : t.Distinct) (key value : Value) : (t.set key value).Distinct := by
  cases hkey : t.has key with
  | true =>
    unfold Distinct
    rw [keys_set_of_has hkey]
    exact h
  | false =>
    unfold Distinct
    rw [set_of_not_has hkey, keys, List.map_append, List.pairwise_append]
    refine ⟨h, List.pairwise_singleton _ _, fun k hk k' hk' => ?_⟩
    cases List.mem_singleton.1 hk'
    exact has_eq_false_iff.1 hkey k hk

theorem Distinct.erase (h : t.Distinct) (key : Value) : (t.erase key).Distinct := by
  cases hkey : t.has key with
  | true =>
    obtain ⟨before, e, after, rfl, -, herase⟩ := exists_erase_of_has hkey
    rw [herase]
    refine List.Pairwise.sublist ?_ h
    exact ((List.sublist_cons_self e after).append_left before).map Prod.fst
  | false => rwa [erase_of_not_has hkey]

theorem ofEntries_append (entries : List (Value × Value)) (key value : Value) :
    ofEntries (entries ++ [(key, value)]) = (ofEntries entries).set key value := by
  simp [ofEntries]

theorem Distinct.get?_erase (h : t.Distinct) (key key' : Value) :
    (t.erase key).get? key' = if key.sameKey key' then none else t.get? key' := by
  induction t with
  | nil => simp [Table.erase, get?]
  | cons e t ih =>
    obtain ⟨k, v⟩ := e
    obtain ⟨hk, ht⟩ := List.pairwise_cons.1 h
    rw [Table.erase]
    split
    · rename_i hkey
      rw [get?, Value.sameKey_congr hkey]
      split
      · rename_i hkey'
        -- what stands behind the erased entry has other keys
        have hrest : has t key' = false := by
          rw [has_eq_false_iff]
          intro k' hk'
          have hne := hk k' hk'
          rw [Value.sameKey_congr hkey, Value.sameKey_congr hkey', Value.sameKey_comm] at hne
          exact hne
        rw [has_eq_isSome, Option.isSome_eq_false_iff, Option.isNone_iff_eq_none] at hrest
        exact hrest
      · rfl
    · rename_i hkey
      rw [get?, get?, ih ht]
      by_cases hkey' : k.sameKey key' = true
      · have hne : ¬key.sameKey key' = true := by
          intro hsame
          rw [Value.sameKey_comm] at hsame
          exact hkey (Value.sameKey_trans hkey' hsame)
        simp [hkey', hne]
      · simp [hkey']

/-- A map that keeps the order in which its keys came in. -/
structure Laws (t : Table) : Prop where
  get?_set (key key' value : Value) :
    (t.set key value).get? key' = if key.sameKey key' then some value else t.get? key'
  get?_erase (key key' : Value) :
    (t.erase key).get? key' = if key.sameKey key' then none else t.get? key'
  has_eq (key : Value) : t.has key = (t.get? key).isSome
  set_present {key : Value} (h : t.has key = true) (value : Value) :
    (t.set key value).keys = t.keys ∧ (t.set key value).length = t.length
  set_absent {key : Value} (h : t.has key = false) (value : Value) :
    t.set key value = t ++ [(key, value)]
  erase_present {key : Value} (h : t.has key = true) :
    ∃ before e after, t = before ++ e :: after ∧ e.1.sameKey key = true ∧
      t.erase key = before ++ after
  erase_absent {key : Value} (h : t.has key = false) : t.erase key = t

theorem Distinct.laws (h : t.Distinct) : t.Laws where
  get?_set := get?_set t
  get?_erase := h.get?_erase
  has_eq := has_eq_isSome t
  set_present hkey value := by
    have hkeys := keys_set_of_has hkey value
    exact ⟨hkeys, by simpa [keys] using congrArg List.length hkeys⟩
  set_absent := set_of_not_has
  erase_present := exists_erase_of_has
  erase_absent := erase_of_not_has

/-- The table is what one gets by these settings, one after another. -/
inductive OfSettings : List (Value × Value) → Table → Prop
  | nil : OfSettings [] []
  | set {settings : List (Value × Value)} {t : Table} (h : OfSettings settings t)
      (key value : Value) : OfSettings (settings ++ [(key, value)]) (t.set key value)

theorem ofSettings_ofEntries (entries : List (Value × Value)) :
    OfSettings entries (ofEntries entries) := by
  induction entries using List.reverseRecOn with
  | nil => exact .nil
  | append_singleton entries e ih =>
    rw [ofEntries_append]
    exact ih.set e.1 e.2

theorem OfSettings.distinct {settings : List (Value × Value)} (h : OfSettings settings t) :
    t.Distinct := by
  induction h with
  | nil => exact distinct_nil
  | set _ key value ih => exact ih.set key value

theorem distinct_ofEntries (entries : List (Value × Value)) : (ofEntries entries).Distinct :=
  (ofSettings_ofEntries entries).distinct

theorem pairUp_flatMap (entries : List (Value × Value)) (rest : List Value) :
    pairUp ((entries.flatMap fun e => [e.1, e.2]) ++ rest) = entries ++ pairUp rest := by
  induction entries with
  | nil => rfl
  | cons e entries ih =>
    simp only [List.flatMap_cons, List.cons_append, List.nil_append, pairUp, ih]

end Table

namespace Eval

theorem evalEntries_eq (ev : Evaluator) (scope : Bindings) (t : Table)
    (entries : List (Atom × Form)) :
    evalEntries ev scope t entries = evalAll ev scope (entries.map Prod.snd) >>= fun vs =>
      pure
        (((entries.map fun e => Value.ofAtom e.1).zip vs).foldl (fun t e => t.set e.1 e.2) t) := by
  induction entries generalizing t with
  | nil => simp [evalEntries, evalAll]
  | cons e entries ih => simp [evalEntries, evalAll, ih]

/-- A table that is written out: the values in order, and then one setting after another. -/
theorem step_table (access : Access) (ev : Evaluator) (scope : Bindings)
    (entries : List (Atom × Form)) :
    step access ev scope (.table entries) = evalAll ev scope (entries.map Prod.snd) >>= fun vs =>
      makeTable (.ofEntries ((entries.map fun e => Value.ofAtom e.1).zip vs)) := by
  simp only [step, evalEntries_eq, bind_assoc, pure_bind]
  rfl

end Eval

/-! What calls do to tables. -/

/-- Tables are made by settings and changed by one setting or erasure, and nothing is written unless
the condition holds. -/
inductive Effect.Orderly (writes : Prop) (h : Heap) : Effect → Prop
  | give (v : Value) : Orderly writes h (.give v)
  | make (entries : List (Value × Value)) : Orderly writes h (.make (.ofEntries entries))
  | set (id : TableId) (key value v : Value) :
      Orderly writes h (.change id ((h.get id).set key value) v)
  | erase (id : TableId) (key v : Value) : Orderly writes h (.change id ((h.get id).erase key) v)
  | write (hw : writes) (channel : Channel) (line : String) :
      Orderly writes h (.write channel line)
  | build (j : Json) : Orderly writes h (.build j)

theorem Effect.Orderly.mono {writes writes' : Prop} (hw : writes → writes') {h : Heap} {e : Effect}
    (he : e.Orderly writes h) : e.Orderly writes' h := by
  cases he with
  | give v => exact .give v
  | make entries => exact .make entries
  | set id key value v => exact .set id key value v
  | erase id key v => exact .erase id key v
  | write h channel line => exact .write (hw h) channel line
  | build j => exact .build j

/-- If the call comes out, its effect is orderly. -/
def Yields (writes : Prop) (h : Heap) (x : Except Cause Effect) : Prop :=
  ∀ e, x = .ok e → e.Orderly writes h

theorem exists_of_bind_eq_ok {α β : Type} {x : Except Cause α} {f : α → Except Cause β} {b : β}
    (h : x >>= f = .ok b) : ∃ a, x = .ok a ∧ f a = .ok b := by
  rcases x with cause | a
  · cases h
  · exact ⟨a, rfl, h⟩

theorem Effect.give_of_map {x : Except Cause Value} {e : Effect} (h : Effect.give <$> x = .ok e) :
    ∃ v, e = .give v := by
  rcases x with cause | v <;> cases h
  exact ⟨v, rfl⟩

/-- `print` writes its arguments, and every other primitive gives a value or a new table. -/
theorem Primitive.plan_cases {op : Primitive} {h : Heap} {args : List Value} {e : Effect}
    (he : op.plan h args = .ok e) :
    (op ≠ .print ∧ ((∃ v, e = .give v) ∨ ∃ entries, e = .make (.ofEntries entries))) ∨
      (op = .print ∧ e = .write .output (h.displayAll args)) := by
  unfold plan at he
  split at he
  · exact .inl ⟨by decide, .inl (Effect.give_of_map he)⟩
  · exact .inl ⟨by decide, .inl (Effect.give_of_map he)⟩
  · exact .inl ⟨by decide, .inl (Effect.give_of_map he)⟩
  · exact .inl ⟨by decide, .inl (Effect.give_of_map he)⟩
  · exact .inl ⟨by decide, .inl (Effect.give_of_map he)⟩
  · exact .inl ⟨by decide, .inl (Effect.give_of_map he)⟩
  · exact .inl ⟨by decide, .inl (Effect.give_of_map he)⟩
  · cases he
    exact .inl ⟨by decide, .inl ⟨_, rfl⟩⟩
  · exact .inl ⟨by decide, .inl (Effect.give_of_map he)⟩
  · exact .inl ⟨by decide, .inl (Effect.give_of_map he)⟩
  · exact .inl ⟨by decide, .inl (Effect.give_of_map he)⟩
  · obtain ⟨items, -, ⟨⟩⟩ := exists_of_bind_eq_ok he
    exact .inl ⟨by decide, .inr ⟨_, rfl⟩⟩
  · exact .inl ⟨by decide, .inl (Effect.give_of_map he)⟩
  · cases he
    exact .inl ⟨by decide, .inl ⟨_, rfl⟩⟩
  · cases he
    exact .inr ⟨rfl, rfl⟩
  · cases he
  · cases he

theorem Primitive.plan_yields (op : Primitive) (h : Heap) (args : List Value) :
    Yields (op = .print) h (op.plan h args) := by
  intro e he
  rcases plan_cases he with ⟨-, ⟨v, rfl⟩ | ⟨entries, rfl⟩⟩ | ⟨hop, rfl⟩
  · exact .give v
  · exact .make entries
  · exact .write hop _ _

namespace Host

/-- The effect is one entry set or deleted, by a method for that. -/
def Edits (h : Heap) (id : TableId) (name : String) (e : Effect) : Prop :=
  (name = "set" ∧ ∃ key value v, e = .change id ((h.get id).set key value) v) ∨
    (name ∈ ["del", "delete"] ∧ ∃ key v, e = .change id ((h.get id).erase key) v)

theorem tablePlan_cases {h : Heap} {c : HostCall} {id : TableId} {name : String} {e : Effect}
    (he : tablePlan h c id name = .ok e) :
    (name ∉ ["set", "del", "delete"] ∧ ∃ v, e = .give v) ∨ Edits h id name e := by
  unfold tablePlan at he
  split at he
  · obtain ⟨key, -, ⟨⟩⟩ := exists_of_bind_eq_ok he
    exact .inl ⟨by decide, _, rfl⟩
  · obtain ⟨key, -, hkey⟩ := exists_of_bind_eq_ok he
    obtain ⟨value, -, ⟨⟩⟩ := exists_of_bind_eq_ok hkey
    exact .inr (.inl ⟨rfl, _, _, _, rfl⟩)
  · obtain ⟨key, -, ⟨⟩⟩ := exists_of_bind_eq_ok he
    exact .inl ⟨by decide, _, rfl⟩
  · obtain ⟨key, -, ⟨⟩⟩ := exists_of_bind_eq_ok he
    exact .inr (.inr ⟨by decide, _, _, rfl⟩)
  · obtain ⟨key, -, ⟨⟩⟩ := exists_of_bind_eq_ok he
    exact .inr (.inr ⟨by decide, _, _, rfl⟩)
  · cases he
    exact .inl ⟨by decide, _, rfl⟩
  · cases he
    exact .inl ⟨by decide, _, rfl⟩
  · cases he

/-- Methods give values, except for those that change the table they are called on. -/
theorem methodPlan_cases {h : Heap} {object : Value} {name : String} {args : List Value}
    {e : Effect} (he : methodPlan h object name args = .ok e) :
    ((∀ id, object = .table id → name ∉ ["set", "del", "delete"]) ∧ ∃ v, e = .give v) ∨
      ∃ id, object = .table id ∧ Edits h id name e := by
  rcases object with _ | _ | _ | _ | _ | _ | _
  case table id =>
    rcases tablePlan_cases he with ⟨hname, hgive⟩ | hedits
    · exact .inl ⟨fun _ _ => hname, hgive⟩
    · exact .inr ⟨id, rfl, hedits⟩
  case text => exact .inl ⟨by rintro _ ⟨⟩, Effect.give_of_map he⟩
  case list => exact .inl ⟨by rintro _ ⟨⟩, Effect.give_of_map he⟩
  case number => exact .inl ⟨by rintro _ ⟨⟩, Effect.give_of_map he⟩
  all_goals cases he

theorem methodPlan_yields (h : Heap) (object : Value) (name : String) (args : List Value) :
    Yields False h (methodPlan h object name args) := by
  intro e he
  rcases methodPlan_cases he with ⟨-, v, rfl⟩ | ⟨id, -, ⟨-, key, value, v, rfl⟩ | ⟨-, key, v, rfl⟩⟩
  · exact .give v
  · exact .set id key value v
  · exact .erase id key v

/-- Members of namespaces give values or build them, except for those of the console, which write.
-/
theorem scopePlan_cases {h : Heap} {c : HostCall} {member scope : String} {e : Effect}
    (he : scopePlan h c member scope = .ok e) :
    (scope ≠ "console" ∧ ((∃ v, e = .give v) ∨ ∃ j, e = .build j)) ∨
      (scope = "console" ∧ (member = "log" ∧ e = .write .output (h.displayAll c.args) ∨
        member = "error" ∧ e = .write .diagnostics (h.displayAll c.args))) := by
  unfold scopePlan at he
  split at he
  · exact .inl ⟨by decide, .inl (Effect.give_of_map he)⟩
  · exact .inl ⟨by decide, .inl (Effect.give_of_map he)⟩
  · exact .inl ⟨by decide, .inl (Effect.give_of_map he)⟩
  · unfold jsonPlan at he
    split at he
    · exact .inl ⟨by decide, .inl (Effect.give_of_map he)⟩
    · obtain ⟨j, -, ⟨⟩⟩ := exists_of_bind_eq_ok he
      exact .inl ⟨by decide, .inr ⟨j, rfl⟩⟩
    · cases he
  · unfold consolePlan at he
    split at he <;> cases he
    · exact .inr ⟨rfl, .inl ⟨rfl, rfl⟩⟩
    · exact .inr ⟨rfl, .inr ⟨rfl, rfl⟩⟩
  · cases he

theorem scopePlan_yields (h : Heap) (c : HostCall) (member scope : String) :
    Yields (scope = "console") h (scopePlan h c member scope) := by
  intro e he
  rcases scopePlan_cases he with ⟨-, ⟨v, rfl⟩ | ⟨j, rfl⟩⟩ | ⟨hs, ⟨-, rfl⟩ | ⟨-, rfl⟩⟩
  · exact .give v
  · exact .build j
  · exact .write hs _ _
  · exact .write hs _ _

end Host

/-! What effects keep. -/

/-- No table has two entries with equal keys. -/
def Heap.Distinct (h : Heap) : Prop := ∀ id, (h.get id).Distinct

theorem Heap.distinct_empty : Heap.empty.Distinct := fun _ => Table.distinct_nil

theorem Heap.Distinct.push {h : Heap} (hh : h.Distinct) {t : Table} (ht : t.Distinct) :
    (h.push t).Distinct := by
  intro id
  rw [get_push]
  split
  · exact ht
  · exact hh id

theorem Heap.Distinct.put {h : Heap} (hh : h.Distinct) {t : Table} (ht : t.Distinct)
    (id : TableId) : (h.put id t).Distinct := by
  intro other
  rw [get_put]
  split
  · exact ht
  · exact hh other

mutual

theorem Json.build_distinct {h : Heap} (hh : h.Distinct) (j : Json) : (j.build h).2.Distinct := by
  cases j with
  | array items => exact Json.buildAll_distinct hh items
  | object members =>
    exact (Json.buildMembers_distinct hh members).push (Table.distinct_ofEntries _)
  | _ => exact hh

theorem Json.buildAll_distinct {h : Heap} (hh : h.Distinct) (js : List Json) :
    (Json.buildAll h js).2.Distinct := by
  cases js with
  | nil => exact hh
  | cons j js => exact Json.buildAll_distinct (Json.build_distinct hh j) js

theorem Json.buildMembers_distinct {h : Heap} (hh : h.Distinct) (members : List (String × Json)) :
    (Json.buildMembers h members).2.Distinct := by
  cases members with
  | nil => exact hh
  | cons member members =>
    exact Json.buildMembers_distinct (Json.build_distinct hh member.2) members

end

theorem Effect.Orderly.distinct {writes : Prop} {h : Heap} {e : Effect} (he : e.Orderly writes h)
    (hh : h.Distinct) : (e.heap h).Distinct := by
  cases he with
  | give v => exact hh
  | make entries => exact hh.push (Table.distinct_ofEntries entries)
  | set id key value v => exact hh.put ((hh id).set key value) id
  | erase id key v => exact hh.put ((hh id).erase key) id
  | write hw channel line => exact hh
  | build j => exact j.build_distinct hh

end Lisplet
