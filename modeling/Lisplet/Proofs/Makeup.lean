import Lisplet.Interpreter
import Lisplet.Proofs.Plans

/-!
What an evaluation is made of. Apart from the forms that it has evaluated, `Eval.step` only ever
ends, fails, reads or changes what in a session does not concern the frames, and reads the lines of
the open calls. `Made` says this once, and what all computations made in this way have in common
follows by induction on it.
-/

namespace Lisplet

namespace Eval

/-- A change that leaves the frames alone and does not hang on which calls are open. -/
structure Heedless {α : Type} (f : Session → α × Session) : Prop where
  withCalls (s : Session) (calls : List OpenCall) :
    f { s with calls } = ((f s).1, { (f s).2 with calls })
  depth (s : Session) : (f s).2.depth = s.depth

theorem Heedless.calls {α : Type} {f : Session → α × Session} (h : Heedless f) (s : Session) :
    (f s).2.calls = s.calls := congrArg (fun p => p.2.calls) (h.withCalls s s.calls)

/-- Computations that have forms evaluated, as a function of how that is done. -/
inductive Made : {α : Type} → (Evaluator → Eval α) → Prop
  | pure {α : Type} (a : α) : Made fun _ => Pure.pure a
  | fail {α : Type} (cause : Cause) : Made fun _ => (Eval.fail cause : Eval α)
  | act {α : Type} {f : Session → α × Session} (hf : Heedless f) :
      Made fun _ => (MonadState.modifyGet f : Eval α)
  | lines : Made fun _ =>
      (MonadState.modifyGet fun s => (traceLines s.calls, s) : Eval (List String))
  /-- The only way in which an evaluation turns to another form. -/
  | ask (scope : Bindings) (form : Form) : Made fun ev => ev scope form
  | bind {α β : Type} {x : Evaluator → Eval α} {f : α → Evaluator → Eval β} (hx : Made x)
      (hf : ∀ a, Made (f a)) : Made fun ev => x ev >>= fun a => f a ev

namespace Made

variable {α β : Type}

/-- A computation that goes on with something it reads off the session. -/
theorem view (p : Session → β) (hp : ∀ (s : Session) calls, p { s with calls } = p s)
    {f : β → Evaluator → Eval α} (hf : ∀ b, Made (f b)) :
    Made fun ev => MonadState.get >>= fun s => f (p s) ev :=
  .bind (f := f) (.act (f := fun s => (p s, s)) ⟨fun s calls => by rw [hp], fun _ => rfl⟩) hf

theorem heap {f : Heap → Evaluator → Eval α} (hf : ∀ h, Made (f h)) :
    Made fun ev => MonadState.get >>= fun s => f s.heap ev := view Session.heap (fun _ _ => rfl) hf

theorem ite {c : Prop} [Decidable c] {x y : Evaluator → Eval α} (hx : Made x) (hy : Made y) :
    Made fun ev => if c then x ev else y ev := by
  by_cases h : c
  · simpa only [h, if_true] using hx
  · simpa only [h, if_false] using hy

theorem ofExcept (x : Except Cause α) : Made fun _ => Eval.ofExcept x := by
  cases x with
  | ok a => exact pure a
  | error cause => exact fail cause

end Made

/-! What the evaluation of a form does on its own, without turning to another form. -/

theorem made_freshId : Made fun _ => freshId := .act ⟨fun _ _ => rfl, fun _ => rfl⟩

theorem made_define (name : String) (value : Value) : Made fun _ => define name value :=
  .act ⟨fun _ _ => rfl, fun _ => rfl⟩

theorem made_makeTable (t : Table) : Made fun _ => makeTable t :=
  .act ⟨fun _ _ => rfl, fun _ => rfl⟩

theorem heedless_hand (channel : Channel) (line : String) :
    Heedless fun s => ((), s.hand channel line) where
  withCalls s calls := by
    unfold Session.hand
    cases s.devices.refusal? channel <;> cases channel <;> rfl
  depth s := by
    unfold Session.hand
    cases s.devices.refusal? channel <;> cases channel <;> rfl

theorem made_ofRefusal? (channel : Channel) (refusal? : Option Refusal) :
    Made fun _ => ofRefusal? channel refusal? := by
  cases refusal? with
  | none => exact .pure _
  | some r => exact .fail _

theorem made_perform (effect : Effect) : Made fun _ => perform effect := by
  cases effect with
  | give v => exact .pure v
  | make t => exact made_makeTable t
  | change id t v => exact .bind (.act ⟨fun _ _ => rfl, fun _ => rfl⟩) fun _ => .pure v
  | write channel line =>
    exact .view (·.devices.refusal? channel) (fun _ _ => rfl) fun refusal? =>
      .bind (.act (heedless_hand channel line)) fun _ => made_ofRefusal? channel refusal?
  | build j => exact .act ⟨fun _ _ => rfl, fun _ => rfl⟩

theorem made_lookUp (scope : Bindings) (name : String) : Made fun _ => lookUp scope name :=
  .act (f := fun s => (((scope.get? name).orElse fun _ => s.globals.get? name).getD .nil, s))
    ⟨fun _ _ => rfl, fun _ => rfl⟩

theorem made_evalSymbol (scope : Bindings) (name : String) :
    Made fun _ => evalSymbol scope name := by
  unfold evalSymbol
  cases Member.ofSymbol? name with
  | none => exact made_lookUp scope name
  | some m => exact .bind made_freshId fun _ => .pure _

theorem made_of_plan {x : Eval Value} (plan : Heap → Except Cause Effect)
    (h : ∀ s, x s = (ofExcept (plan s.heap) >>= perform) s) : Made fun _ => x := by
  rw [show x = MonadState.get >>= fun s => ofExcept (plan s.heap) >>= perform from funext h]
  exact .heap fun heap => .bind (.ofExcept (plan heap)) made_perform

theorem made_callProbe (scope : Bindings) (p : Probe) : Made fun _ => callProbe scope p := by
  cases p with
  | depth => exact .view Session.depth (fun _ _ => rfl) fun depth => .pure (Value.ofNat depth)
  | trace =>
    have hlines := Made.bind .lines fun lines => .pure (Value.list (lines.map .text))
    exact hlines
  | locals => exact .pure _

/-! Sequences of forms, in the order in which they are evaluated. -/

theorem made_evalAll (scope : Bindings) (forms : List Form) :
    Made fun ev => evalAll ev scope forms := by
  induction forms with
  | nil => exact .pure []
  | cons form forms ih => exact .bind (.ask scope form) fun _ => .bind ih fun _ => .pure _

theorem made_evalBody (scope : Bindings) (last : Value) (forms : List Form) :
    Made fun ev => evalBody ev scope last forms := by
  induction forms generalizing last with
  | nil => exact .pure last
  | cons form forms ih => exact .bind (.ask scope form) ih

theorem made_evalEntries (scope : Bindings) (t : Table) (entries : List (Atom × Form)) :
    Made fun ev => evalEntries ev scope t entries := by
  induction entries generalizing t with
  | nil => exact .pure t
  | cons entry entries ih => exact .bind (.ask scope entry.2) fun _ => ih _

/-! Application. -/

theorem made_callVariants (scope : Bindings) (name : Option String) (args : List Value)
    (variants : List Variant) : Made fun ev => callVariants ev scope name args variants := by
  induction variants with
  | nil => exact .heap fun h => .fail (.noSignature name (", ".intercalate (args.map h.display)))
  | cons variant variants ih =>
    refine .bind (.ofExcept _) fun bound => ?_
    cases bound with
    | none => exact ih
    | some bound => exact made_evalBody _ _ _

theorem made_callDirect (access : Access) (scope : Bindings) (args : List Value)
    (f : Function) : Made fun ev => callDirect access ev scope args f := by
  cases f with
  | special form => exact .fail _
  | primitive op =>
    have hcall := made_of_plan (op.plan · args) (op.call_eq args)
    exact hcall
  | apply => exact .pure _
  | probe p => exact made_callProbe scope p
  | member id m =>
    have hcall := made_of_plan (Host.memberPlan access · m args) (callMember_eq access m args)
    exact hcall
  | closure id name variants => exact made_callVariants scope name args variants

theorem made_applyFunction (access : Access) (scope : Bindings) (args : List Value)
    (f : Function) : Made fun ev => applyFunction access ev scope args f := by
  cases f with
  | apply =>
    exact .heap fun h => .bind (.ofExcept (spread h args)) fun p =>
      made_callDirect access scope p.2 p.1
  | _ =>
    simp only [applyFunction]
    exact made_callDirect access scope args _

/-! Special forms. Reading their operands only ever succeeds or fails. -/

theorem made_bindingName (special : SpecialForm) (form : Form) :
    Made fun _ => bindingName special form := by
  cases form with
  | symbol name => exact .pure name
  | _ => exact .fail _

theorem made_paramNames (special : SpecialForm) (forms : List Form) :
    Made fun _ => paramNames special forms := by
  induction forms with
  | nil => exact .pure []
  | cons form forms ih =>
    cases form with
    | symbol name => exact .bind ih fun _ => .pure _
    | _ => exact .fail _

theorem made_readVariant (special : SpecialForm) (form : Form) :
    Made fun _ => readVariant special form := by
  unfold readVariant
  split
  · exact .bind (made_paramNames special _) fun _ => .pure _
  · exact .bind (made_paramNames special _) fun _ => .pure _
  · exact .fail _
  · exact .fail _

theorem made_readVariants (special : SpecialForm) (forms : List Form) :
    Made fun _ => readVariants special forms := by
  induction forms with
  | nil => exact .pure []
  | cons form forms ih =>
    exact .bind (made_readVariant special form) fun _ => .bind ih fun _ => .pure _

theorem made_functionVariants (special : SpecialForm) (forms : List Form) :
    Made fun _ => functionVariants special forms := by
  unfold functionVariants
  split
  · exact .fail _
  · exact .bind (made_paramNames special _) fun _ => .pure _
  · exact made_readVariants special forms

theorem made_evalDefine (forms : List Form) : Made fun ev => evalDefine ev forms := by
  unfold evalDefine
  split
  · exact .bind (made_bindingName _ _) fun _ => .bind (made_define _ _) fun _ => .pure _
  · exact .bind (made_bindingName _ _) fun _ => .bind (.ask _ _) fun _ =>
      .bind (made_define _ _) fun _ => .pure _
  · exact .fail _

theorem made_evalLambda (forms : List Form) : Made fun _ => evalLambda forms :=
  .bind (made_functionVariants _ forms) fun _ => .bind made_freshId fun _ => .pure _

theorem made_evalDefineFunction (forms : List Form) :
    Made fun _ => evalDefineFunction forms := by
  cases forms with
  | nil => exact .fail _
  | cons name forms =>
    exact .bind (made_bindingName _ name) fun _ => .bind (made_functionVariants _ forms)
      fun _ => .bind made_freshId fun _ => .bind (made_define _ _) fun _ => .pure _

theorem made_evalIsDefined (scope : Bindings) (forms : List Form) :
    Made fun _ => evalIsDefined scope forms := by
  unfold evalIsDefined
  split
  · exact .bind (made_bindingName _ _) fun name =>
      .view Session.globals (fun _ _ => rfl) fun globals =>
        .pure (Value.bool (scope.contains name || globals.contains name))
  · exact .fail _

theorem made_evalIf (scope : Bindings) (forms : List Form) :
    Made fun ev => evalIf ev scope forms := by
  unfold evalIf
  split
  · exact .bind (.ask scope _) fun _ => .ite (.ask scope _) (.pure _)
  · exact .bind (.ask scope _) fun _ => .ite (.ask scope _) (.ask scope _)
  · exact .fail _

theorem made_evalClauses (scope : Bindings) (subject : Value) :
    ∀ forms, Made fun ev => evalClauses ev scope subject forms
  | [] => .pure _
  | [default] => .ask scope default
  | key :: form :: clauses =>
    .bind (.ask scope key) fun _ =>
      .ite (.ask scope form) (made_evalClauses scope subject clauses)

theorem made_evalCase (scope : Bindings) (forms : List Form) :
    Made fun ev => evalCase ev scope forms := by
  cases forms with
  | nil => exact .fail _
  | cons subject clauses =>
    exact .bind (.ask scope subject) fun v => made_evalClauses scope v clauses

theorem made_evalAnd (scope : Bindings) (forms : List Form) :
    Made fun ev => evalAnd ev scope forms := by
  induction forms with
  | nil => exact .pure _
  | cons form forms ih => exact .bind (.ask scope form) fun _ => .ite ih (.pure _)

theorem made_evalOr (scope : Bindings) (forms : List Form) :
    Made fun ev => evalOr ev scope forms := by
  induction forms with
  | nil => exact .pure _
  | cons form forms ih => exact .bind (.ask scope form) fun _ => .ite (.pure _) ih

theorem made_evalBindings (scope : Bindings) :
    ∀ forms, Made fun ev => evalBindings ev scope forms
  | [] => .pure _
  | [_] => by simp only [evalBindings]; exact .pure _
  | name :: form :: rest => by
    cases name with
    | symbol name =>
      exact .bind (.ask scope form) fun _ =>
        .bind (made_evalBindings scope rest) fun _ => .pure _
    | _ => exact .fail _

theorem made_evalLet (scope : Bindings) (forms : List Form) :
    Made fun ev => evalLet ev scope forms := by
  unfold evalLet
  split
  · exact .fail _
  · exact .ite (.fail _) (.bind (made_evalBindings scope _) fun _ => made_evalBody _ _ _)
  · exact .fail _

theorem made_callSpecial (scope : Bindings) (operands : List Form) (special : SpecialForm) :
    Made fun ev => callSpecial ev scope operands special := by
  cases special with
  | eval =>
    simp only [callSpecial]
    split
    · exact .ask scope _
    · exact .fail _
  | define => exact made_evalDefine operands
  | lambda => exact made_evalLambda operands
  | defineFunction => exact made_evalDefineFunction operands
  | isDefined => exact made_evalIsDefined scope operands
  | cond => exact made_evalIf scope operands
  | case => exact made_evalCase scope operands
  | binding => exact made_evalLet scope operands
  | and => exact made_evalAnd scope operands
  | or => exact made_evalOr scope operands

theorem made_evalCall (access : Access) (scope : Bindings) (items : List Form) :
    Made fun ev => evalCall access ev scope items := by
  cases items with
  | nil => exact .pure _
  | cons head operands =>
    refine .bind (.ask scope head) fun v => ?_
    split
    · exact made_callSpecial scope operands _
    · exact .bind (made_evalAll scope operands) fun args =>
        made_applyFunction access scope args _
    · exact .bind (made_evalAll scope operands) fun _ => .fail _

/-- Every form is evaluated by a computation so made. -/
theorem made_step (access : Access) (scope : Bindings) (form : Form) :
    Made fun ev => step access ev scope form := by
  cases form with
  | atom a => exact .pure _
  | symbol name => exact made_evalSymbol scope name
  | call items l => exact made_evalCall access scope items
  | quoted items l => exact .bind (made_evalAll scope items) fun _ => .pure _
  | vector items => exact .bind (made_evalAll scope items) fun _ => .pure _
  | table entries => exact .bind (made_evalEntries scope _ entries) made_makeTable

end Eval

end Lisplet
