import Lisplet.Proofs.Frames
import Lisplet.Proofs.RoundTrip

/-!
Printed data is a program for itself. The text of a value made of atoms and lists reads as one form,
and that form comes to the value again without leaving a trace in the session, as long as neither
the brackets nor the open forms nest beyond their limits.
-/

namespace Lisplet

namespace Value

/-- Data without tables and functions, with finite numbers, whose lists nest at most so deep. -/
inductive IsPlain : (depth : Nat) → Value → Prop
  | atom {depth : Nat} {a : Atom} (h : a.isFinite = true) : IsPlain depth (.ofAtom a)
  | list {depth : Nat} {items : List Value} (h : ∀ v ∈ items, IsPlain depth v) :
      IsPlain (depth + 1) (.list items)

mutual

/-- The form whose text is that of the value, given the text of tables. -/
def form (table : TableId → String) : Value → Form
  | nil => .atom .nil
  | bool b => .atom (.bool b)
  | number x => .atom (.number x)
  | text s => .atom (.text s)
  | list items => .vector (forms table items)
  | .table id => .symbol (table id)
  | function f => .symbol f.text

def forms (table : TableId → String) : List Value → List Form
  | [] => []
  | v :: vs => form table v :: forms table vs

end

variable (table : TableId → String)

theorem form_ofAtom (a : Atom) : form table (.ofAtom a) = .atom a := by
  cases a <;> simp [ofAtom, form]

theorem forms_eq_map (vs : List Value) : forms table vs = vs.map (form table) := by
  induction vs with
  | nil => rw [forms, List.map_nil]
  | cons v vs ih => rw [forms, ih, List.map_cons]

mutual

/-- The text of a value inside a list is that of its form. -/
theorem render_form (v : Value) : (v.form table).render = v.render table true := by
  cases v with
  | list items => rw [form, Form.render, render, renderItems_forms items]
  | _ => simp [form, render, Form.render, Atom.render]

theorem renderItems_forms (vs : List Value) :
    Form.renderItems (forms table vs) = renderAll table vs := by
  cases vs with
  | nil => rw [forms, Form.renderItems, renderAll]
  | cons v vs => rw [forms, Form.renderItems, renderAll, render_form v, renderItems_forms vs]

end

namespace IsPlain

variable {depth : Nat} {v : Value}

theorem readable (h : v.IsPlain depth) : (v.form table).Readable depth := by
  induction h with
  | @atom depth a _ =>
    rw [form_ofAtom]
    exact .atom a
  | list _ ih =>
    rw [form, forms_eq_map]
    exact .vector (List.forall_mem_map.2 ih)

theorem isFinite (h : v.IsPlain depth) : (v.form table).isFinite = true := by
  induction h with
  | atom h => rwa [form_ofAtom, Form.isFinite]
  | list _ ih =>
    rw [form, Form.isFinite, Form.allFinite_eq, forms_eq_map, List.all_eq_true]
    exact List.forall_mem_map.2 ih

end IsPlain

theorem same_ofAtom (a b : Atom) : (ofAtom a).same (ofAtom b) = a.alike b := by
  cases a <;> cases b <;> simp [ofAtom, same, Atom.alike]

end Value

theorem Form.alike_atom {f : Form} {a : Atom} (h : f.alike (.atom a) = true) :
    ∃ b, f = .atom b ∧ b.alike a = true := by
  cases f with
  | atom b => exact ⟨b, rfl, by rwa [alike] at h⟩
  | _ => simp [alike] at h

theorem Form.alike_vector {f : Form} {items : List Form} (h : f.alike (.vector items) = true) :
    ∃ items', f = .vector items' ∧ alikeAll items' items = true := by
  cases f with
  | vector items' => exact ⟨items', rfl, by rwa [alike] at h⟩
  | _ => simp [alike] at h

/-- A form within the limit whose text is read back is read as a form like it, alone. -/
theorem Form.Readable.exists_parse {k : Nat} {f : Form} (h : f.Readable k)
    (hfinite : f.isFinite = true) (hk : k ≤ maxNesting) (name : String) :
    ∃ m, parse name f.render = .ok [m] ∧ m.alike f = true := by
  obtain ⟨m, q, hm, hread⟩ := @Reading.readsBack name k f h hfinite [] (by simpa using hk) .start []
    Lexeme.stops_nil
  refine ⟨m, ?_, hm⟩
  rw [List.append_nil] at hread
  rw [parse, readForms, Tokens.ofString_eq, hread]
  rfl

namespace Eval

/-- The forms have the values one after another, all in the same session. -/
theorem evalAll_of_forall {ev : Evaluator} {scope : Bindings} {s : Session}
    {table : TableId → String} {vs : List Value}
    (h : ∀ v ∈ vs, ∀ m : Form, m.alike (v.form table) = true →
      ∃ w, ev scope m s = .ok w s ∧ w.same v = true)
    {ms : List Form} (hms : Form.alikeAll ms (Value.forms table vs) = true) :
    ∃ ws, evalAll ev scope ms s = .ok ws s ∧ Value.sameAll ws vs = true := by
  induction vs generalizing ms with
  | nil =>
    cases ms with
    | nil => exact ⟨[], rfl, rfl⟩
    | cons m ms => simp [Value.forms, Form.alikeAll] at hms
  | cons v vs ih =>
    cases ms with
    | nil => simp [Value.forms, Form.alikeAll] at hms
    | cons m ms =>
      rw [Value.forms, Form.alikeAll, Bool.and_eq_true] at hms
      obtain ⟨w, hw, hsame⟩ := h v (by simp) m hms.1
      obtain ⟨ws, hws, hsames⟩ := ih (fun v hv => h v (by simp [hv])) hms.2
      refine ⟨w :: ws, ?_, by rw [Value.sameAll, hsame, hsames, Bool.and_self]⟩
      rw [evalAll, Outcome.bind_of_ok hw, Outcome.bind_of_ok hws]
      rfl

end Eval

namespace Config

/-- What is read of the text of plain data comes to that data and leaves the session alone. -/
theorem evaluate_of_isPlain (config : Config) (scope : Bindings) {table : TableId → String}
    {depth : Nat} {v : Value} (hv : v.IsPlain depth) {m : Form}
    (hm : m.alike (v.form table) = true) {s : Session} (hroom : s.depth + depth < config.maxDepth) :
    ∃ w, config.evaluate scope m s = .ok w s ∧ w.same v = true := by
  induction hv generalizing m s with
  | @atom depth a _ =>
    rw [Value.form_ofAtom] at hm
    obtain ⟨b, rfl, hb⟩ := Form.alike_atom hm
    refine ⟨.ofAtom b, ?_, by rwa [Value.same_ofAtom]⟩
    rw [config.evaluate_of_lt scope _ (by omega)]
    rfl
  | @list depth items _ ih =>
    rw [Value.form] at hm
    obtain ⟨ms, rfl, hms⟩ := Form.alike_vector hm
    -- The bracket takes one level, and the items nest one level less.
    have hinside : (s.enter (.vector ms)).depth = s.depth + 1 := rfl
    obtain ⟨ws, hws, hsame⟩ := Eval.evalAll_of_forall
      (fun v hv m hm => ih v hv hm (s := s.enter (.vector ms)) (by omega)) hms
    refine ⟨.list ws, ?_, by rwa [Value.same]⟩
    rw [config.evaluate_of_lt scope _ (by omega), Eval.framed, Eval.step,
      Outcome.bind_of_ok hws]
    rfl

/-- Data whose lists nest no deeper than brackets may, run as a program in any session that has one
level more than that to spare, is strictly equal to what it was, and nothing has changed. -/
theorem runSource_inspect (config : Config) (file : String) (h : Heap) {depth : Nat} {v : Value}
    (hv : v.IsPlain depth) (hdepth : depth ≤ maxNesting) {s : Session}
    (hroom : s.depth + depth + 1 ≤ config.maxDepth) :
    ∃ w, config.runSource file (h.inspect v) s = .ok w s ∧ w.same v = true := by
  obtain ⟨m, hm, halike⟩ := (hv.readable (h.renderTable (h.size + 2) [])).exists_parse
    (hv.isFinite _) hdepth file
  obtain ⟨w, hw, hsame⟩ := config.evaluate_of_isPlain .empty hv halike hroom
  rw [Value.render_form] at hm
  have hrun : config.runSource file (h.inspect v) = config.runForms [m] := by
    rw [runSource, Heap.inspect, hm]
  refine ⟨w, ?_, hsame⟩
  rw [hrun, runForms, Eval.evalBody, Outcome.bind_of_ok hw]
  rfl

/-- At both limits at once, with a text that needs its quotes in the middle. -/
theorem runSource_inspect_nested :
    let config : Config := ⟨513, false, .all⟩
    let v : Value := (fun v => .list [v])^[512] (.text "a \"b\"\n")
    v.IsPlain 512 ∧ 512 ≤ maxNesting ∧ Session.initial.depth + 512 + 1 ≤ config.maxDepth ∧
      ∃ w, config.runSource "a" (Heap.empty.inspect v) .initial = .ok w .initial ∧
        w.same v = true := by
  intro config v
  have hnested (n : Nat) :
      ((fun v => .list [v])^[n] (.text "a \"b\"\n") : Value).IsPlain n := by
    induction n with
    | zero => exact .atom (a := .text "a \"b\"\n") rfl
    | succ n ih =>
      rw [Function.iterate_succ_apply']
      exact .list (by simpa using ih)
  have hroom : Session.initial.depth + 512 + 1 ≤ config.maxDepth := by decide
  exact ⟨hnested 512, by decide, hroom,
    config.runSource_inspect "a" .empty (hnested 512) (by decide) hroom⟩

end Config

end Lisplet
