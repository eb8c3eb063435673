import Lisplet.Proofs.Accords
import Lisplet.Proofs.Limits
import Lisplet.Proofs.Traces
import Mathlib

/-!
The namespaces that a program may reach are a gate. Members of the host are values: they can be
stored, passed on and called anywhere later, but every effect in a run comes from a member that may
be reached or from no member at all; a call of any other member ends the run with a failure that
says so, and changes nothing. A program that is never refused runs in the same way wherever more may
be reached.
-/

namespace Lisplet

/-! What a run does to its session. -/

/-- One thing that a run does to its session, with effects of some kind. -/
inductive Session.Act (kind : Heap → Effect → Prop) : Session → Session → Prop
  | enter (s : Session) (form : Form) : Act kind s (s.enter form)
  | leave (s : Session) (form : Form) : Act kind s (s.leave form)
  | number (s : Session) : Act kind s { s with fresh := s.fresh + 1 }
  | define (s : Session) (x : String) (v : Value) :
      Act kind s { s with globals := s.globals.insert x v }
  | effect {s : Session} {e : Effect} (he : kind s.heap e) : Act kind s (e.after s)

def Session.Acts (kind : Heap → Effect → Prop) : Session → Session → Prop :=
  Relation.ReflTransGen (Session.Act kind)

/-- A run only ever acts on its session, with effects that arise in it. -/
def Accord.acting (access : Access) (s : Session) : Accord access .same where
  holds t _ := s.Acts (fun h e => e.Arises access h) t
  enter {t _ f _} h _ := h.tail (.enter t f)
  leave {t _ f _} h _ := h.tail (.leave t f)
  fresh {t _} h := h.tail (.number t)
  define {t _ x v _} h _ _ := h.tail (.define t x v)
  act h _ _ he _ := h.tail (.effect he.arises)

theorem Config.runSource_acts (config : Config) (file source : String) (s : Session) :
    s.Acts (fun h e => e.Arises config.access h)
      (Outcome.session (config.runSource file source s)) :=
  (runSource_sessions (Accord.acting config.access s) Form.like_same file source
    ⟨s.like_same, .refl⟩).holds

/-! What writes. -/

def Effect.isSilent : Effect → Bool
  | write .. => false
  | _ => true

/-- The call comes out as something that writes nothing, if it comes out. -/
def Silent (x : Except Cause Effect) : Prop := ∀ e, x = .ok e → e.isSilent = true

theorem Effect.Orderly.isSilent {writes : Prop} (hw : ¬writes) {h : Heap} {e : Effect}
    (he : e.Orderly writes h) : e.isSilent = true := by
  cases he with
  | write h => exact absurd h hw
  | _ => rfl

theorem Yields.silent {writes : Prop} {h : Heap} {x : Except Cause Effect} (hx : Yields writes h x)
    (hw : ¬writes) : Silent x :=
  fun e he => (hx e he).isSilent hw

/-- Whatever the effect writes, `print` writes. -/
def Effect.Printed (h : Heap) (e : Effect) : Prop :=
  e.isSilent = true ∨ ∃ args, Primitive.print.plan h args = .ok e

theorem Effect.Arises.printed {access : Access} (hconsole : access.allows "console" = false)
    {h : Heap} {e : Effect} (he : e.Arises access h) : e.Printed h := by
  cases he with
  | @primitive op args _ he =>
    by_cases hop : op = .print
    · subst hop
      exact .inr ⟨args, he⟩
    · exact .inl ((op.plan_yields h args).silent hop e he)
  | method he => exact .inl ((Host.methodPlan_yields h _ _ _).silent not_false e he)
  | @member scope _ _ _ ha he =>
    have hs : scope ≠ "console" := by
      rintro rfl
      rw [hconsole] at ha
      cases ha
    exact .inl ((Host.scopePlan_yields h _ _ scope).silent hs e he)
  | literal t => exact .inl rfl

theorem Session.Acts.printed {access : Access} (hconsole : access.allows "console" = false)
    {s t : Session} (h : s.Acts (fun h e => e.Arises access h) t) :
    s.Acts (fun h e => e.Arises access h ∧ e.Printed h) t := by
  refine Relation.ReflTransGen.mono ?_ _ _ h
  rintro s t (_ | _ | _ | _ | he)
  · exact .enter _ _
  · exact .leave _ _
  · exact .number _
  · exact .define _ _ _
  · exact .effect ⟨he, he.printed hconsole⟩

theorem Session.diagnostics_hand_output (s : Session) (line : String) :
    (s.hand .output line).diagnostics = s.diagnostics := by
  unfold hand
  cases s.devices.refusal? .output <;> rfl

/-- `print` writes to the output. -/
theorem Session.Acts.diagnostics {kind : Heap → Effect → Prop}
    (hkind : ∀ h e, kind h e → e.Printed h) {s t : Session} (h : s.Acts kind t) :
    t.diagnostics = s.diagnostics := by
  induction h with
  | refl => rfl
  | tail _ hact ih =>
    rw [← ih]
    cases hact with
    | enter form => cases form <;> rfl
    | leave form => cases form <;> rfl
    | number => rfl
    | define => rfl
    | @effect e he =>
      rcases hkind _ e he with hsilent | ⟨args, hprint⟩
      · cases e with
        | write channel line => cases hsilent
        | _ => rfl
      · cases hprint
        exact Session.diagnostics_hand_output _ _

/-! Calls that are refused. -/

/-- The session with the open forms of another. -/
def Session.withFrames (t s : Session) : Session := { t with depth := s.depth, calls := s.calls }

theorem Session.leave_eq_withFrames {s t : Session} {form : Form}
    (h : s.SameFrames (t.leave form)) : t.leave form = t.withFrames s := by
  unfold withFrames
  rw [← h.depth, ← h.calls]
  cases form <;> rfl

theorem Session.SameFrames.withFrames {s s' : Session} (h : s.SameFrames s') (t : Session) :
    t.withFrames s' = t.withFrames s := by
  unfold Session.withFrames
  rw [h.depth, h.calls]

theorem Host.globalPlan_denied {access : Access} {scope : String} (hd : access.allows scope = false)
    (h : Heap) (member : String) (args : List Value) :
    globalPlan access h [scope, member] args =
      .error (.host (scope ++ "/" ++ member) (.denied scope)) := by
  have hpath : "/".intercalate [scope, member] = scope ++ "/" ++ member := rfl
  simp only [globalPlan, hd, Bool.false_eq_true, if_false, HostCall.fail, hpath]

namespace Config

variable {config : Config} {v w : Visit} {e : Failure} {t : Session}

theorem run_withFrames_of_body_ok (h : w.session.depth < config.maxDepth) {a : Value}
    (hb : w.body config.access config.evaluate = .ok a t) :
    config.run w = .ok a (t.withFrames w.session) := by
  have hrun := run_of_body_ok h hb
  have hframes := config.evaluate_keepsFrames w.scope w.form w.session
  rw [show config.evaluate w.scope w.form w.session = _ from hrun] at hframes
  rw [hrun, Session.leave_eq_withFrames hframes]

theorem run_withFrames_of_body_error (h : w.session.depth < config.maxDepth)
    (hb : w.body config.access config.evaluate = .error e t) :
    config.run w = .error (e.annotate w.inside.calls) (t.withFrames w.session) := by
  have hrun := run_of_body_error h hb
  have hframes := config.evaluate_keepsFrames w.scope w.form w.session
  rw [show config.evaluate w.scope w.form w.session = _ from hrun] at hframes
  rw [hrun, Session.leave_eq_withFrames hframes]

/-- A failure leaves everything but the open forms as it was where it arose. -/
theorem Reaches.run_withFrames (h : config.Reaches v w)
    (hw : config.run w = .error e (t.withFrames w.session)) :
    config.run v = .error e (t.withFrames v.session) := by
  induction h with
  | refl => exact hw
  | @tail u w _ hlast ih =>
    have hu := hlast.run_eq hw
    have hframes := config.evaluate_keepsFrames u.scope u.form u.session
    rw [show config.evaluate u.scope u.form u.session = _ from hu] at hframes
    rw [Session.leave_eq_withFrames hframes] at hu
    exact ih hu

/-- Running the source text has the form evaluated, at any number of levels inside. -/
def Meets (config : Config) (file source : String) (s : Session) (w : Visit) : Prop :=
  ∃ forms, parse file source = .ok forms ∧
    ∃ v : Visit, v.Decides (fun ev => Eval.evalBody ev .empty .nil forms s) config.evaluate ∧
      config.Reaches v w

theorem Meets.runSource_eq {file source : String} {s : Session}
    (h : config.Meets file source s w)
    (hw : config.run w = .error e (t.withFrames w.session)) :
    config.runSource file source s = .error e (t.withFrames s) := by
  obtain ⟨forms, hp, v, hv, hvw⟩ := h
  have hcourse := Eval.follows_evalBody .empty .nil forms s
  have hframes := hcourse.sameFrames_of_decides config.evaluate_keepsFrames hv
  have hrun := hcourse.eq_of_decides hv (hvw.run_withFrames hw)
  rw [runSource, hp, ← hframes.withFrames t]
  exact hrun

/-- The call at the visit comes to apply a function to arguments, directly or through `apply`. -/
inductive Applies (config : Config) (w : Visit) : Function → List Value → Session → Prop
  | call {head : Form} {operands : List Form} {l : Location} {f : Function} {args : List Value}
      {t u : Session} (hroom : w.session.depth < config.maxDepth)
      (hform : w.form = .call (head :: operands) l)
      (hhead : config.evaluate w.scope head w.inside = .ok (.function f) t)
      (hf : f.isSpecial = false)
      (hargs : Eval.evalAll config.evaluate w.scope operands t = .ok args u) :
      Applies config w f args u
  | apply {f : Function} {args vs : List Value} {u : Session} (h : Applies config w .apply args u)
      (hs : spread u.heap args = .ok (f, vs)) : Applies config w f vs u

theorem Applies.depth_lt {f : Function} {args : List Value} (h : config.Applies w f args t) :
    w.session.depth < config.maxDepth := by
  induction h with
  | call hroom => exact hroom
  | apply _ _ ih => exact ih

theorem Applies.body_eq {f : Function} {args : List Value} (h : config.Applies w f args t) :
    w.body config.access config.evaluate =
      Eval.applyFunction config.access config.evaluate w.scope args f t := by
  induction h with
  | @call head operands l f args t u _ hform hhead hf hargs =>
    unfold Visit.body
    rw [hform]
    change ((config.evaluate w.scope head >>= _) : Eval Value) w.inside = _
    rw [Outcome.bind_apply, hhead]
    have hcall : ((Eval.evalAll config.evaluate w.scope operands >>= fun args =>
        Eval.applyFunction config.access config.evaluate w.scope args f) : Eval Value) t =
        Eval.applyFunction config.access config.evaluate w.scope args f u := by
      rw [Outcome.bind_apply, hargs]
      rfl
    cases f with
    | special form => cases hf
    | _ => exact hcall
  | @apply f args vs u _ hs ih =>
    rw [ih]
    change ((Eval.ofExcept (spread u.heap args) >>= fun p =>
      Eval.callDirect config.access config.evaluate w.scope p.2 p.1) : Eval Value) u = _
    rw [hs]
    have hne := spread_ne_apply u.heap args hs
    cases f with
    | apply => exact absurd rfl hne
    | _ => rfl

/-- A call of a member that may not be reached fails, and the failure is all that comes of it. -/
theorem Applies.run_denied {id : Nat} {scope member : String} {args : List Value}
    (h : config.Applies w (.member id (.global [scope, member])) args t)
    (hd : config.access.allows scope = false) :
    config.run w = .error ⟨.host (scope ++ "/" ++ member) (.denied scope), some w.inside.calls⟩
      (t.withFrames w.session) := by
  have hbody : w.body config.access config.evaluate =
      .error (.ofCause (.host (scope ++ "/" ++ member) (.denied scope))) t := by
    rw [h.body_eq]
    change Host.global config.access [scope, member] args t = _
    rw [Host.global_eq, Host.globalPlan_denied hd]
    rfl
  exact run_withFrames_of_body_error h.depth_lt hbody

end Config

/-! Larger access. -/

/-- Whatever may be reached here may be reached there. -/
def Access.Within (a b : Access) : Prop := ∀ scope, a.allows scope = true → b.allows scope = true

def Cause.isDenied : Cause → Bool
  | host _ (.denied _) => true
  | _ => false

theorem Outcome.Below.bind {α β : Type} {kind : Cause → Bool} {x y : Eval α} {f g : α → Eval β}
    {s : Session} (hx : Outcome.Below kind (x s) (y s))
    (hf : ∀ a t, Outcome.Below kind (f a t) (g a t)) :
    Outcome.Below kind ((x >>= f) s) ((y >>= g) s) := by
  rw [Outcome.bind_apply, Outcome.bind_apply]
  exact hx.andThen hf

section Larger

variable {a b : Access} (hab : a.Within b)

include hab

theorem Eval.callMember_below (m : Member) (args : List Value) (s : Session) :
    Outcome.Below Cause.isDenied (callMember a m args s) (callMember b m args s) := by
  cases m with
  | field name => cases args <;> exact .refl _
  | method name => cases args <;> exact .refl _
  | global path =>
    change Outcome.Below _ (Host.global a path args s) (Host.global b path args s)
    unfold Host.global
    split
    · rename_i scope member
      cases ha : a.allows scope with
      | true =>
        rw [hab scope ha]
        exact .refl _
      | false => exact .inl rfl
    · exact .refl _

variable {ev ev' : Evaluator} (hev : ev.Below Cause.isDenied ev')

include hev

theorem Eval.callDirect_below (scope : Bindings) (args : List Value) (f : Function) (s : Session) :
    Outcome.Below Cause.isDenied (callDirect a ev scope args f s)
      (callDirect b ev' scope args f s) := by
  cases f with
  | member id m => exact callMember_below hab m args s
  | closure id name variants => exact (follows_callVariants scope name args variants s).mono hev
  | _ => exact .refl _

theorem Eval.applyFunction_below (scope : Bindings) (args : List Value) (f : Function)
    (s : Session) :
    Outcome.Below Cause.isDenied (applyFunction a ev scope args f s)
      (applyFunction b ev' scope args f s) := by
  have hdirect := callDirect_below hab hev scope args f s
  cases f with
  | apply =>
    change Outcome.Below _
      (((ofExcept (spread s.heap args) >>= fun p => callDirect a ev scope p.2 p.1) : Eval Value) s)
      (((ofExcept (spread s.heap args) >>= fun p => callDirect b ev' scope p.2 p.1) : Eval Value) s)
    exact .bind (.refl _) fun p t => callDirect_below hab hev scope p.2 p.1 t
  | _ => exact hdirect

theorem Eval.step_below (scope : Bindings) (form : Form) (s : Session) :
    Outcome.Below Cause.isDenied (step a ev scope form s) (step b ev' scope form s) := by
  have hstep := (follows_step b scope form s).mono hev
  cases form with
  | call items l =>
    cases items with
    | nil => exact .refl _
    | cons head operands =>
      refine .bind (hev scope head s) fun v t => ?_
      cases v with
      | function f =>
        have hcall := Outcome.Below.bind ((follows_evalAll scope operands t).mono hev)
          fun args u => applyFunction_below hab hev scope args f u
        cases f with
        | special special => exact (follows_callSpecial scope operands special t).mono hev
        | _ => exact hcall
      | _ => exact .bind ((follows_evalAll scope operands t).mono hev) fun _ _ => .refl _
  | _ => exact hstep

end Larger

theorem evaluate_access_below {a b : Access} (hab : a.Within b) (room : Nat) :
    (evaluate a room).Below Cause.isDenied (evaluate b room) := by
  induction room with
  | zero => exact fun _ _ _ => .refl _
  | succ room ih =>
    exact fun scope form s => Eval.framed_below form (Eval.step_below hab ih scope form _)

namespace Config

/-- The same program where other namespaces may be reached. -/
def withAccess (config : Config) (access : Access) : Config := { config with access := access }

theorem runSource_access_below (config : Config) {access : Access}
    (h : config.access.Within access) (file source : String) (s : Session) :
    Outcome.Below Cause.isDenied (config.runSource file source s)
      ((config.withAccess access).runSource file source s) := by
  unfold runSource
  cases parse file source with
  | error e => exact .refl _
  | ok forms =>
    refine (Eval.follows_evalBody .empty .nil forms s).mono fun scope form s => ?_
    exact evaluate_access_below h _ scope form s

/-- Every effect of a run comes from a namespace that may be reached or from none, and where the
console may not be reached only `print` writes. A call of a member that may not be reached is the
end of the run: it fails with a message that names the namespace, and the session is the one in
which the call was made. A run that does not end so is the same wherever more may be reached. -/
theorem access_gates_members (config : Config) (file source : String) (s : Session) :
    let r := config.runSource file source s
    s.Acts (fun h e => e.Arises config.access h) (Outcome.session r) ∧
    (config.access.allows "console" = false →
      s.Acts (fun h e => e.Arises config.access h ∧ e.Printed h) (Outcome.session r) ∧
        (Outcome.session r).diagnostics = s.diagnostics) ∧
    (∀ w id scope member args t, config.Meets file source s w →
      config.Applies w (.member id (.global [scope, member])) args t →
      config.access.allows scope = false →
      ∃ e, r = .error e (t.withFrames s) ∧ e.trace = some w.inside.calls ∧
        e.cause.category = "HostError" ∧ e.cause.message =
          scope ++ "/" ++ member ++ ": " ++ ("namespace `" ++ scope ++ "` is not allowed")) ∧
    (Outcome.failsWith Cause.isDenied r = false → ∀ access, config.access.Within access →
      (config.withAccess access).runSource file source s = r) := by
  intro r
  have hacts := config.runSource_acts file source s
  refine ⟨hacts, fun hconsole => ?_, fun w id scope member args t hw happlies hd => ?_,
    fun hr access haccess => (config.runSource_access_below haccess file source s).eq hr⟩
  · have hprinted := hacts.printed hconsole
    exact ⟨hprinted, hprinted.diagnostics fun _ _ he => he.2⟩
  · exact ⟨_, hw.runSource_eq (happlies.run_denied hd), rfl, rfl, rfl⟩

/-- A member that is held in a variable and called through `apply`, and one that is not called. -/
theorem access_gates_members_apply :
    let config : Config := ⟨9, false, .only ["Math"]⟩
    let log : Function := .member 0 (.global ["console", "log"])
    let s : Session := { Session.initial with
      globals := ⟨[("apply", .function .apply), ("log", .function log)]⟩, fresh := 1 }
    let w : Visit := ⟨.empty, .call [.symbol "apply", .symbol "log", .vector [.atom .nil]]
      ⟨"a", 1, 1⟩, s⟩
    config.Meets "a" "(apply log [nil])" s w ∧ config.Applies w log [.nil] w.inside ∧
      (∃ e, config.runSource "a" "(apply log [nil])" s = .error e s ∧
        e.cause.message = "console/log: namespace `console` is not allowed") ∧
      (config.withAccess .all).runSource "a" "[log]" s = config.runSource "a" "[log]" s := by
  intro config log s w
  have hparse : parse "a" "(apply log [nil])" = .ok [w.form] := by cbv
  have hplain : parse "a" "[log]" = .ok [.vector [.symbol "log"]] := by cbv
  have hconsole : config.access.allows "console" = false := by decide
  have happlies : config.Applies w log [.nil] w.inside := by
    have hcall : config.Applies w .apply [.function log, .list [.nil]] w.inside :=
      .call (by decide) rfl rfl rfl rfl
    refine hcall.apply ?_
    rw [spread]
    rfl
  have hmeets : config.Meets "a" "(apply log [nil])" s w := by
    refine ⟨_, hparse, w, ⟨.ok .nil s, fun h => ?_⟩, .refl⟩
    have hanswer : config.evaluate.answering w (.ok .nil s) .empty w.form s = .ok .nil s :=
      if_pos rfl
    have hbody (ev : Evaluator) : Eval.evalBody ev .empty .nil [w.form] s = ev .empty w.form s := by
      change ((ev .empty w.form >>= fun v => Eval.evalBody ev .empty v []) : Eval Value) s = _
      rw [Outcome.bind_apply]
      cases ev .empty w.form s <;> rfl
    dsimp only at h
    rw [hbody, hbody, hanswer] at h
    cases h.trans (happlies.run_denied hconsole)
  have hplainRun : Outcome.failsWith Cause.isDenied (config.runSource "a" "[log]" s) = false := by
    rw [runSource, hplain]
    rfl
  obtain ⟨e, he, -, -, hm⟩ := (access_gates_members config "a" "(apply log [nil])" s).2.2.1
    w 0 "console" "log" _ _ hmeets happlies hconsole
  exact ⟨hmeets, happlies, ⟨e, he, hm⟩, (access_gates_members config "a" "[log]" s).2.2.2 hplainRun
    .all fun _ _ => rfl⟩

end Config

end Lisplet
