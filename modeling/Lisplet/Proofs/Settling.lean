import Lisplet.Proofs.Arguments
import Lisplet.Proofs.Limits
import Mathlib

/-!
Computations that settle. Most of what functions do changes nothing that lasts: the globals, the
tables and what has been written stay, and only the count of functions made goes on. Of such a
computation it is said here what it comes to wherever enough levels are left, in every session with
the same globals, tables and output. There is one rule for each kind of form, and a level is spent
in one place only, where a form is opened.
-/

namespace Lisplet

/-- What lasts is the same. Tables may have been added. -/
structure Session.SameWorld (s t : Session) : Prop where
  globals : t.globals = s.globals
  tables : s.heap.tables.toList <+: t.heap.tables.toList
  output : t.output = s.output
  diagnostics : t.diagnostics = s.diagnostics

namespace Session.SameWorld

theorem refl (s : Session) : s.SameWorld s := ⟨rfl, List.prefix_rfl, rfl, rfl⟩

theorem trans {s t u : Session} (h : s.SameWorld t) (k : t.SameWorld u) : s.SameWorld u :=
  ⟨k.globals.trans h.globals, h.tables.trans k.tables, k.output.trans h.output,
    k.diagnostics.trans h.diagnostics⟩

theorem enter (s : Session) (form : Form) : s.SameWorld (s.enter form) := by
  cases form <;> exact ⟨rfl, List.prefix_rfl, rfl, rfl⟩

theorem leave (s : Session) (form : Form) : s.SameWorld (s.leave form) := by
  cases form <;> exact ⟨rfl, List.prefix_rfl, rfl, rfl⟩

end Session.SameWorld

/-- The value or the cause of the failure, without the session and the trace. -/
def Outcome.verdict {α : Type} : Outcome α → Except Cause α
  | .ok a _ => .ok a
  | .error e _ => .error e.cause

namespace Config

/-- In every session that has the world of `s` and `levels` levels left, the computation comes to
something that `P` allows, and the world stays as it is. -/
def Settles {α : Type} (config : Config) (s : Session) (levels : Nat) (x : Eval α)
    (P : Except Cause α → Prop) : Prop :=
  ∀ t, s.SameWorld t → t.depth + levels ≤ config.maxDepth →
    P (Outcome.verdict (x t)) ∧ t.SameWorld (Outcome.session (x t))

/-- The form has this value, wherever so many levels are left, and nothing that lasts is changed. -/
def Evaluates (config : Config) (s : Session) (levels : Nat) (scope : Bindings) (form : Form)
    (v : Value) : Prop :=
  config.Settles s levels (config.evaluate scope form) (· = .ok v)

variable {config : Config} {s : Session} {levels : Nat} {scope : Bindings} {α β : Type}

namespace Settles

variable {x : Eval α} {P Q : Except Cause α → Prop}

theorem mono {more : Nat} (h : config.Settles s levels x P) (hle : levels ≤ more)
    (hPQ : ∀ r, P r → Q r) : config.Settles s more x Q := by
  intro t ht hd
  obtain ⟨hP, hworld⟩ := h t ht (by omega)
  exact ⟨hPQ _ hP, hworld⟩

theorem lift {more : Nat} (h : config.Settles s levels x P) (hle : levels ≤ more) :
    config.Settles s more x P := h.mono hle fun _ => id

theorem pure {a : α} (h : P (.ok a)) : config.Settles s levels (Pure.pure a) P :=
  fun t _ _ => ⟨h, .refl t⟩

theorem fail {cause : Cause} (h : P (.error cause)) : config.Settles s levels (Eval.fail cause) P :=
  fun t _ _ => ⟨h, .refl t⟩

/-- One computation and then another, the first of which leaves open what it found open. -/
theorem bind {f : α → Eval β} {R : Except Cause β → Prop} (hx : config.Settles s levels x P)
    (hframes : ∀ t : Session, t.SameFrames (Outcome.session (x t)))
    (hf : ∀ a, P (.ok a) → config.Settles s levels (f a) R)
    (herror : ∀ cause, P (.error cause) → R (.error cause)) :
    config.Settles s levels (x >>= f) R := by
  intro t ht hd
  obtain ⟨hP, hworld⟩ := hx t ht hd
  have hopen := hframes t
  rw [Outcome.bind_apply]
  cases hr : x t with
  | error e u =>
    rw [hr] at hP hworld
    exact ⟨herror _ hP, hworld⟩
  | ok a u =>
    rw [hr] at hP hworld hopen
    have hdepth : u.depth = t.depth := hopen.depth
    obtain ⟨hR, hworld'⟩ := hf a hP u (ht.trans hworld) (by omega)
    exact ⟨hR, hworld.trans hworld'⟩

/-- A computation that hands out a number for a function made settles for every number. -/
theorem fresh {f : Nat → Eval α} (h : ∀ id, config.Settles s levels (f id) P) :
    config.Settles s levels (Eval.freshId >>= f) P := by
  refine .bind (P := fun r => ∃ id, r = .ok id) (fun t _ _ => ?_) (fun t => ⟨rfl, rfl⟩) ?_ ?_
  · exact ⟨⟨_, rfl⟩, rfl, List.prefix_rfl, rfl, rfl⟩
  · exact fun id _ => h id
  · rintro cause ⟨id, ⟨⟩⟩

theorem ofExcept (r : Except Cause α) : config.Settles s levels (Eval.ofExcept r) (· = r) := by
  cases r with
  | ok a => exact .pure rfl
  | error cause => exact .fail rfl

/-- What is to be shown may assume that there are levels enough somewhere. -/
theorem of_room (h : ∀ t, s.SameWorld t → t.depth + levels ≤ config.maxDepth →
    config.Settles s levels x P) : config.Settles s levels x P :=
  fun t ht hd => h t ht hd t ht hd

end Settles

/-! Forms. -/

/-- A form settles as its evaluation does, one level further in. -/
theorem settles_evaluate {form : Form} {P : Except Cause Value → Prop}
    (h : config.Settles s levels (Eval.step config.access config.evaluate scope form) P) :
    config.Settles s (levels + 1) (config.evaluate scope form) P := by
  intro t ht hd
  have henter := Session.SameWorld.enter t form
  have hdepth : (t.enter form).depth = t.depth + 1 := by cases form <;> rfl
  obtain ⟨hP, hworld⟩ := h (t.enter form) (ht.trans henter) (by omega)
  rw [config.evaluate_of_lt scope form (by omega), Eval.framed]
  cases hr : Eval.step config.access config.evaluate scope form (t.enter form) with
  | ok v u =>
    rw [hr] at hP hworld
    exact ⟨hP, (henter.trans hworld).trans (.leave u form)⟩
  | error e u =>
    rw [hr] at hP hworld
    refine ⟨?_, (henter.trans hworld).trans (.leave u form)⟩
    rw [Outcome.verdict, Failure.annotate_cause]
    exact hP

theorem settles_atom (a : Atom) :
    config.Settles s (levels + 1) (config.evaluate scope (.atom a)) (· = .ok (.ofAtom a)) :=
  settles_evaluate (.pure rfl)

/-- A variable has the value that the scope gives it, or else the globals. -/
theorem settles_variable {name : String} {v : Value} (hname : Member.ofSymbol? name = none)
    (hv : (scope.get? name).or (s.globals.get? name) = some v) :
    config.Settles s (levels + 1) (config.evaluate scope (.symbol name)) (· = .ok v) := by
  refine settles_evaluate fun t ht _ => ?_
  have hlook : Eval.lookUp scope name t = .ok v t := by
    rw [Eval.lookUp, Option.orElse_eq_or, ht.globals, hv, Option.getD_some]
  rw [Eval.step, Eval.evalSymbol, hname]
  simp only [hlook]
  exact ⟨rfl, .refl t⟩

theorem settles_local {name : String} {v : Value} (hname : Member.ofSymbol? name = none)
    (hv : scope.get? name = some v) :
    config.Settles s (levels + 1) (config.evaluate scope (.symbol name)) (· = .ok v) :=
  settles_variable hname (by rw [hv, Option.some_or])

theorem settles_member {name : String} {m : Member} (hname : Member.ofSymbol? name = some m) :
    config.Settles s (levels + 1) (config.evaluate scope (.symbol name))
      fun r => ∃ id, r = .ok (.function (.member id m)) := by
  refine settles_evaluate ?_
  rw [Eval.step, Eval.evalSymbol, hname]
  exact .fresh fun id => .pure ⟨id, rfl⟩

theorem settles_evalAll_nil :
    config.Settles s levels (Eval.evalAll config.evaluate scope []) (· = .ok []) := .pure rfl

/-- Forms in a row settle one after another, up to the first failure. -/
theorem settles_evalAll_cons {form : Form} {forms : List Form} {P : Except Cause Value → Prop}
    {Q R : Except Cause (List Value) → Prop}
    (hform : config.Settles s levels (config.evaluate scope form) P)
    (hforms : ∀ v, P (.ok v) → config.Settles s levels (Eval.evalAll config.evaluate scope forms) Q)
    (hok : ∀ v vs, P (.ok v) → Q (.ok vs) → R (.ok (v :: vs)))
    (hfirst : ∀ cause, P (.error cause) → R (.error cause))
    (hlater : ∀ v cause, P (.ok v) → Q (.error cause) → R (.error cause)) :
    config.Settles s levels (Eval.evalAll config.evaluate scope (form :: forms)) R :=
  .bind hform (config.evaluate_keepsFrames scope form)
    (fun v hv => .bind (hforms v hv)
      (fun t => (Eval.follows_evalAll scope forms t).sameFrames config.evaluate_keepsFrames)
      (fun vs hvs => .pure (hok v vs hv hvs)) fun cause => hlater v cause hv)
    hfirst

/-- Forms in a row of which none fails. -/
theorem settles_operands {forms : List Form} {vs : List Value}
    (h : List.Forall₂
      (fun form v => config.Settles s levels (config.evaluate scope form) (· = .ok v)) forms vs) :
    config.Settles s levels (Eval.evalAll config.evaluate scope forms) (· = .ok vs) := by
  induction h with
  | nil => exact settles_evalAll_nil
  | cons hform _ ih =>
    refine settles_evalAll_cons hform (fun _ _ => ih) ?_ ?_ ?_
    · rintro _ _ ⟨⟩ ⟨⟩
      rfl
    · rintro cause ⟨⟩
    · rintro _ cause _ ⟨⟩

/-- A call of a function that takes the values of its operands. -/
theorem settles_call {head : Form} {operands : List Form} {l : Location} {F : Function → Prop}
    {A : Except Cause (List Value) → Prop} {P : Except Cause Value → Prop}
    (hhead : config.Settles s levels (config.evaluate scope head)
      fun r => ∃ f, r = .ok (.function f) ∧ f.isSpecial = false ∧ F f)
    (hargs : config.Settles s levels (Eval.evalAll config.evaluate scope operands) A)
    (happly : ∀ f args, F f → A (.ok args) →
      config.Settles s levels (Eval.applyFunction config.access config.evaluate scope args f) P)
    (herror : ∀ cause, A (.error cause) → P (.error cause)) :
    config.Settles s (levels + 1) (config.evaluate scope (.call (head :: operands) l)) P := by
  refine settles_evaluate ?_
  refine .bind hhead (config.evaluate_keepsFrames scope head) ?_ ?_
  · rintro _ ⟨f, ⟨⟩, hspecial, hf⟩
    have hframes (t : Session) : t.SameFrames
        (Outcome.session (Eval.evalAll config.evaluate scope operands t)) :=
      (Eval.follows_evalAll scope operands t).sameFrames config.evaluate_keepsFrames
    cases f with
    | special form => cases hspecial
    | _ => exact .bind hargs hframes (fun args => happly _ args hf) herror
  · rintro cause ⟨f, ⟨⟩, -⟩

/-- A call of the function that a variable of the scope holds. -/
theorem settles_held {name : String} {f : Function} {operands : List Form} {l : Location}
    {args : List Value} {P : Except Cause Value → Prop} (hname : Member.ofSymbol? name = none)
    (hf : scope.get? name = some (.function f)) (hspecial : f.isSpecial = false)
    (hargs : config.Settles s (levels + 1) (Eval.evalAll config.evaluate scope operands)
      (· = .ok args))
    (happly : config.Settles s (levels + 1)
      (Eval.applyFunction config.access config.evaluate scope args f) P) :
    config.Settles s (levels + 2) (config.evaluate scope (.call (.symbol name :: operands) l))
      P := by
  have hhead := @settles_local config s levels scope name _ hname hf
  refine settles_call (F := (· = f)) (hhead.mono (Nat.le_refl _) ?_) hargs ?_ ?_
  · exact fun _ hr => ⟨f, hr, hspecial, rfl⟩
  · rintro _ _ rfl ⟨⟩
    exact happly
  · rintro cause ⟨⟩

/-- A call of a member of the host. -/
theorem settles_member_call {name : String} {m : Member} {operands : List Form} {l : Location}
    {args : List Value} {P : Except Cause Value → Prop} (hname : Member.ofSymbol? name = some m)
    (hargs : config.Settles s (levels + 1) (Eval.evalAll config.evaluate scope operands)
      (· = .ok args))
    (happly : ∀ id, config.Settles s (levels + 1)
      (Eval.applyFunction config.access config.evaluate scope args (.member id m)) P) :
    config.Settles s (levels + 2) (config.evaluate scope (.call (.symbol name :: operands) l))
      P := by
  refine settles_call (F := fun f => ∃ id, f = .member id m) ?_ hargs ?_ ?_
  · refine (settles_member hname).mono (Nat.le_refl _) ?_
    rintro _ ⟨id, rfl⟩
    exact ⟨_, rfl, rfl, id, rfl⟩
  · rintro _ _ ⟨id, rfl⟩ ⟨⟩
    exact happly id
  · rintro cause ⟨⟩

/-- A special form, which gets its operands as they are. -/
theorem settles_special {head : Form} {operands : List Form} {l : Location} {form : SpecialForm}
    {P : Except Cause Value → Prop}
    (hhead : config.Settles s levels (config.evaluate scope head)
      (· = .ok (.function (.special form))))
    (h : config.Settles s levels (Eval.callSpecial config.evaluate scope operands form) P) :
    config.Settles s (levels + 1) (config.evaluate scope (.call (head :: operands) l)) P := by
  refine settles_evaluate (.bind hhead (config.evaluate_keepsFrames scope head) ?_ ?_)
  · rintro _ ⟨⟩
    exact h
  · rintro cause ⟨⟩

theorem settles_vector {items : List Form} {vs : List Value}
    (h : config.Settles s levels (Eval.evalAll config.evaluate scope items) (· = .ok vs)) :
    config.Settles s (levels + 1) (config.evaluate scope (.vector items)) (· = .ok (.list vs)) := by
  refine settles_evaluate (.bind h ?_ ?_ ?_)
  · exact fun t => (Eval.follows_evalAll scope items t).sameFrames config.evaluate_keepsFrames
  · rintro _ ⟨⟩
    exact .pure rfl
  · rintro cause ⟨⟩

/-! Application. -/

theorem settles_primitive {op : Primitive} {args : List Value} {r : Except Cause Value}
    (h : ∀ heap, op.plan heap args = Effect.give <$> r) :
    config.Settles s levels
      (Eval.applyFunction config.access config.evaluate scope args (.primitive op)) (· = r) := by
  intro t _ _
  have hcall : Eval.applyFunction config.access config.evaluate scope args (.primitive op) t =
      ((Eval.ofExcept (op.plan t.heap args) : Eval Effect) >>= Eval.perform) t := op.call_eq args t
  rw [hcall, h]
  cases r with
  | ok v => exact ⟨rfl, .refl t⟩
  | error cause => exact ⟨rfl, .refl t⟩

theorem settles_field {id : Nat} {name : String} {object : Value} {args : List Value}
    {r : Except Cause Value} (h : ∀ heap, Host.field heap object name = r) :
    config.Settles s levels (Eval.applyFunction config.access config.evaluate scope (object :: args)
      (.member id (.field name))) (· = r) := by
  intro t ht hd
  have hcall : Eval.applyFunction config.access config.evaluate scope (object :: args)
      (.member id (.field name)) t = Eval.ofExcept (Host.field t.heap object name) t := rfl
  rw [hcall, h]
  exact Settles.ofExcept r t ht hd

theorem settles_method {id : Nat} {name : String} {object : Value} {args : List Value}
    {r : Except Cause Value}
    (h : ∀ heap, Host.methodPlan heap object name args = Effect.give <$> r) :
    config.Settles s levels (Eval.applyFunction config.access config.evaluate scope (object :: args)
      (.member id (.method name))) (· = r) := by
  intro t _ _
  have hcall : Eval.applyFunction config.access config.evaluate scope (object :: args)
      (.member id (.method name)) t =
      (Eval.ofExcept (Host.methodPlan t.heap object name args) >>= Eval.perform) t :=
    Host.method_eq object name args t
  rw [hcall, h]
  cases r with
  | ok v => exact ⟨rfl, .refl t⟩
  | error cause => exact ⟨rfl, .refl t⟩

/-- The first variant, if it takes the arguments. -/
theorem settles_variant {variant : Variant} {form : Form} {variants : List Variant}
    {name : Option String} {args : List Value} {bound : List (String × Value)}
    {P : Except Cause Value → Prop} (hbody : variant.body = [form])
    (hbound : Params.bind? variant.params args = .ok (some bound))
    (h : config.Settles s levels (config.evaluate (scope.layer bound) form) P) :
    config.Settles s levels
      (Eval.callVariants config.evaluate scope name args (variant :: variants)) P := by
  rw [Eval.callVariants, hbound, hbody]
  change config.Settles s levels (config.evaluate (scope.layer bound) form >>= Pure.pure) P
  exact .bind h (config.evaluate_keepsFrames _ form) (fun v hv => .pure hv) fun _ => id

theorem settles_variant_later {variant : Variant} {variants : List Variant} {name : Option String}
    {args : List Value} {P : Except Cause Value → Prop}
    (hbound : Params.bind? variant.params args = .ok none)
    (h : config.Settles s levels
      (Eval.callVariants config.evaluate scope name args variants) P) :
    config.Settles s levels
      (Eval.callVariants config.evaluate scope name args (variant :: variants)) P := by
  rw [Eval.callVariants, hbound]
  exact h

/-! Special forms. -/

theorem settles_cond {test yes no : Form} {v : Value} {P : Except Cause Value → Prop}
    (htest : config.Settles s levels (config.evaluate scope test) (· = .ok v))
    (hyes : v.isTruthy = true → config.Settles s levels (config.evaluate scope yes) P)
    (hno : v.isTruthy = false → config.Settles s levels (config.evaluate scope no) P) :
    config.Settles s levels (Eval.callSpecial config.evaluate scope [test, yes, no] .cond) P := by
  refine .bind htest (config.evaluate_keepsFrames scope test) ?_ ?_
  · rintro _ ⟨⟩
    cases hv : v.isTruthy with
    | true => exact hyes hv
    | false => exact hno hv
  · rintro cause ⟨⟩

theorem settles_lambda {operands : List Form} {variants : List Variant}
    (h : Eval.functionVariants .lambda operands = pure variants) :
    config.Settles s levels (Eval.callSpecial config.evaluate scope operands .lambda)
      fun r => ∃ id, r = .ok (.function (.closure id none variants)) := by
  rw [Eval.callSpecial, Eval.evalLambda, h, pure_bind]
  exact .fresh fun id => .pure ⟨id, rfl⟩

/-- A body under one local name. -/
theorem settles_binding {name : String} {form body : Form} {v : Value}
    {P : Except Cause Value → Prop}
    (hform : config.Settles s levels (config.evaluate scope form) (· = .ok v))
    (hbody : config.Settles s levels (config.evaluate (scope.layer [(name, v)]) body) P) :
    config.Settles s levels
      (Eval.callSpecial config.evaluate scope [.vector [.symbol name, form], body] .binding) P := by
  rw [Eval.callSpecial, Eval.evalLet, if_neg (by simp)]
  simp only [Eval.evalBindings, Eval.evalBody, bind_assoc, pure_bind]
  refine .bind hform (config.evaluate_keepsFrames scope form) ?_ ?_
  · rintro _ ⟨⟩
    exact .bind hbody (config.evaluate_keepsFrames _ body) (fun w hw => .pure hw) fun _ => id
  · rintro cause ⟨⟩

end Config

end Lisplet
