import Lisplet.Proofs.Courses
import Lisplet.Proofs.LikeSessions
import Lisplet.Proofs.Tables

/-!
Two runs of one program. Each looks its names up in a scope and globals of its own, and these need
only be alike: whole evaluations then give like values or like failures, and sessions that are alike
again. An accord adds to this whatever else is kept by everything a run does on its own, from
opening a form to the effect of a call.
-/

namespace Lisplet

/-- Where the effects in a run come from: a primitive, a method of an object, a member of a
namespace that may be reached, or a table written out. -/
inductive Effect.Arises (access : Access) (h : Heap) : Effect → Prop
  | primitive {op : Primitive} {args : List Value} {e : Effect} (he : op.plan h args = .ok e) :
      Arises access h e
  | method {object : Value} {name : String} {args : List Value} {e : Effect}
      (he : Host.methodPlan h object name args = .ok e) : Arises access h e
  | member {scope member : String} {args : List Value} {e : Effect}
      (ha : access.allows scope = true)
      (he : Host.scopePlan h ⟨"/".intercalate [scope, member], args⟩ member scope = .ok e) :
      Arises access h e
  | literal (t : Table) : Arises access h (.make t)

theorem Host.exists_scopePlan {access : Access} {h : Heap} {path : List String}
    {args : List Value} {e : Effect} (he : globalPlan access h path args = .ok e) :
    ∃ scope member, access.allows scope = true ∧
      scopePlan h ⟨"/".intercalate [scope, member], args⟩ member scope = .ok e := by
  unfold globalPlan at he
  dsimp only at he
  split at he
  · rename_i scope member
    split at he
    · exact ⟨scope, member, ‹_›, he⟩
    · cases he
  · cases he

/-- An effect in a run, and what it can be. -/
structure Effect.Occurs (access : Access) (h : Heap) (e : Effect) : Prop where
  arises : e.Arises access h
  orderly : e.Orderly True h

namespace Effect.Occurs

variable {access : Access} {h : Heap} {e : Effect}

theorem primitive {op : Primitive} {args : List Value} (he : op.plan h args = .ok e) :
    e.Occurs access h :=
  ⟨.primitive he, (op.plan_yields h args e he).mono fun _ => trivial⟩

theorem method {object : Value} {name : String} {args : List Value}
    (he : Host.methodPlan h object name args = .ok e) : e.Occurs access h :=
  ⟨.method he, (Host.methodPlan_yields h object name args e he).mono fun _ => trivial⟩

theorem of_global {path : List String} {args : List Value}
    (he : Host.globalPlan access h path args = .ok e) : e.Occurs access h := by
  obtain ⟨scope, member, ha, he⟩ := Host.exists_scopePlan he
  exact ⟨.member ha he, (Host.scopePlan_yields h _ _ _ e he).mono fun _ => trivial⟩

theorem literal {t : Table} (ht : ∃ entries, t = .ofEntries entries) :
    Effect.Occurs access h (.make t) := by
  obtain ⟨entries, rfl⟩ := ht
  exact ⟨.literal _, .make entries⟩

end Effect.Occurs

variable {k : Likeness}

/-! Application to like arguments. -/

theorem spread_cons (h : Heap) (callee last : Value) {rest leading : List Value}
    (hr : rest.reverse = last :: leading) :
    spread h (callee :: rest) =
      match last with
      | .list items =>
        match callee with
        | .function .apply => spread h (leading.reverse ++ items)
        | .function f => .ok (f, leading.reverse ++ items)
        | v => .error (.notCallable (h.inspect v))
      | v => .error (.mismatch Function.applyName (.expected "Array" v.kind)) := by
  rw [spread]
  split
  · simp_all
  · rename_i items' leading' hr'
    obtain ⟨rfl, rfl⟩ := List.cons.inj (hr.symm.trans hr')
    rfl
  · rename_i v leading' hv hr'
    obtain ⟨rfl, rfl⟩ := List.cons.inj (hr.symm.trans hr')
    split
    · exact absurd rfl (hv _)
    · rfl

theorem spread_like {h h' : Heap} (hh : h.Like k h') {args args' : List Value}
    (hargs : List.Forall₂ (Value.Like k) args args') :
    Answers (fun p q => p.1.Like k q.1 ∧ List.Forall₂ (Value.Like k) p.2 q.2) (spread h args)
      (spread h' args') := by
  cases hargs with
  | nil =>
    rw [spread, spread]
    exact .error _
  | @cons callee callee' rest rest' hv hrest =>
    have hrev := List.rel_reverse hrest
    generalize hr : rest.reverse = back, hr' : rest'.reverse = back' at hrev
    cases hrev with
    | nil =>
      obtain rfl := List.reverse_eq_nil_iff.1 hr
      obtain rfl := List.reverse_eq_nil_iff.1 hr'
      rw [spread, spread]
      exact .error _
    | cons hl hls =>
      rw [spread_cons h _ _ hr, spread_cons h' _ _ hr']
      cases hl with
      | list hitems =>
        have hnext := List.rel_append (List.rel_reverse hls) hitems
        have hinspect := hh.inspect hv
        cases hv with
        | function hf =>
          have hfun := hf
          cases hf with
          | apply => exact spread_like hh hnext
          | _ => exact .ok ⟨hfun, hnext⟩
        | _ =>
          simp only [hinspect]
          exact .error _
      | _ => exact .error _
termination_by Value.weightAll args
decreasing_by
  have h := congrArg Value.weightAll hr
  simp only [Value.weightAll_reverse, Value.weightAll, Value.weight] at h
  simp only [Value.weightAll, Value.weightAll_append, Value.weightAll_reverse, Value.weight]
  omega

theorem zip_like (names : List String) {vs ws : List Value}
    (h : List.Forall₂ (Value.Like k) vs ws) :
    List.Forall₂ (Bound.Like k) (names.zip vs) (names.zip ws) := by
  induction h generalizing names with
  | nil =>
    rw [List.zip_nil_right]
    exact .nil
  | cons hv _ ih =>
    cases names with
    | nil => exact .nil
    | cons x names => exact .cons ⟨rfl, hv⟩ (ih names)

theorem bind?_like (params : List String) {args args' : List Value}
    (hargs : List.Forall₂ (Value.Like k) args args') :
    Answers (Option.Rel (List.Forall₂ (Bound.Like k))) (Params.bind? params args)
      (Params.bind? params args') := by
  unfold Params.bind?
  rw [hargs.length_eq]
  cases Params.shape params with
  | plain names =>
    refine .ok ?_
    split
    · exact .some (zip_like names hargs)
    · exact .none
  | rest leading rest trailing =>
    refine .ok ?_
    split
    · have hbehind := List.forall₂_drop leading.length hargs
      refine .some (List.rel_append (List.rel_append (zip_like leading hargs)
        (zip_like trailing (List.forall₂_drop _ hbehind))) (.cons ⟨rfl, .list ?_⟩ .nil))
      exact List.forall₂_take _ hbehind
    · exact .none
  | malformed => exact .error _

/-- What two runs keep in common beside likeness. -/
structure Accord (access : Access) (k : Likeness) where
  holds : Session → Session → Prop
  enter {s t : Session} {f g : Form} (h : holds s t) (hf : f.Like k g) :
    holds (s.enter f) (t.enter g)
  leave {s t : Session} {f g : Form} (h : holds s t) (hf : f.Like k g) :
    holds (s.leave f) (t.leave g)
  fresh {s t : Session} (h : holds s t) :
    holds { s with fresh := s.fresh + 1 } { t with fresh := t.fresh + 1 }
  define {s t : Session} {x : String} {v w : Value} (h : holds s t) (hx : k.name x)
    (hv : v.Like k w) :
    holds { s with globals := s.globals.insert x v } { t with globals := t.globals.insert x w }
  act {s t : Session} {e e' : Effect} (h : holds s t) (hst : s.Like k t) (hl : e.Like k e')
    (he : e.Occurs access s.heap) (he' : e'.Occurs access t.heap) : holds (e.after s) (e'.after t)

namespace Accord

variable {access : Access} {k : Likeness} (A : Accord access k) {α β γ δ : Type}

structure Sessions (s t : Session) : Prop where
  like : s.Like k t
  holds : A.holds s t

/-- Related values or like failures, in sessions that are in accord. -/
inductive Outcomes (Q : α → β → Prop) : Outcome α → Outcome β → Prop
  | ok {a : α} {b : β} {s t : Session} (ha : Q a b) (h : A.Sessions s t) :
      Outcomes Q (.ok a s) (.ok b t)
  | error {e e' : Failure} {s t : Session} (he : e.Like k e') (h : A.Sessions s t) :
      Outcomes Q (.error e s) (.error e' t)

theorem Outcomes.sessions {A : Accord access k} {Q : α → β → Prop} {r : Outcome α} {r' : Outcome β}
    (h : A.Outcomes Q r r') : A.Sessions r.session r'.session := by
  cases h with
  | ok _ h => exact h
  | error _ h => exact h

/-- Computations that keep to the accord. -/
def Agree (Q : α → β → Prop) (x : Eval α) (y : Eval β) : Prop :=
  ∀ s t, A.Sessions s t → A.Outcomes Q (x s) (y t)

def Evaluators (ev ev' : Evaluator) : Prop :=
  ∀ a b f g, a.Like k b → f.Like k g → A.Agree (Value.Like k) (ev a f) (ev' b g)

variable {A}

namespace Agree

variable {Q : α → β → Prop} {R : γ → δ → Prop}

theorem pure {a : α} {b : β} (h : Q a b) : A.Agree Q (Pure.pure a) (Pure.pure b) :=
  fun _ _ hst => .ok h hst

theorem fail {c c' : Cause} (h : c.Like k c') : A.Agree Q (Eval.fail c) (Eval.fail c') :=
  fun _ _ hst => .error (.ofCause h) hst

/-- The same cause in both runs. -/
theorem failSame (c : Cause) : A.Agree Q (Eval.fail c) (Eval.fail c) := fail (.refl c)

theorem bind {x : Eval γ} {y : Eval δ} {f : γ → Eval α} {g : δ → Eval β} (hx : A.Agree R x y)
    (hf : ∀ c d, R c d → A.Agree Q (f c) (g d)) : A.Agree Q (x >>= f) (y >>= g) := by
  intro s t h
  rw [Outcome.bind_apply, Outcome.bind_apply]
  have hxy := hx s t h
  generalize x s = r at hxy
  generalize y t = r' at hxy
  cases hxy with
  | ok hcd h => exact hf _ _ hcd _ _ h
  | error he h => exact .error he h

theorem ite {p q : Prop} [Decidable p] [Decidable q] {x y : Eval α} {x' y' : Eval β}
    (hp : p ↔ q) (hx : A.Agree Q x x') (hy : A.Agree Q y y') :
    A.Agree Q (if p then x else y) (if q then x' else y') := by
  by_cases h : p
  · simpa only [if_pos h, if_pos (hp.1 h)] using hx
  · simpa only [if_neg h, if_neg (mt hp.2 h)] using hy

theorem ofExcept {x : Except Cause α} {y : Except Cause β} (h : Answers Q x y) :
    A.Agree Q (Eval.ofExcept x) (Eval.ofExcept y) := by
  cases h with
  | ok h => exact pure h
  | error cause => exact failSame cause

end Agree

/-- Calls that come out as like effects or the same cause, and do the effects. -/
theorem Outcomes.perform {s t : Session} (h : A.Sessions s t) {x y : Except Cause Effect}
    (hxy : LikeEffects k x y) (hx : ∀ e, x = .ok e → e.Occurs access s.heap)
    (hy : ∀ e, y = .ok e → e.Occurs access t.heap) :
    A.Outcomes (Value.Like k) ((Eval.ofExcept x >>= Eval.perform) s)
      ((Eval.ofExcept y >>= Eval.perform) t) := by
  cases hxy with
  | error cause => exact .error (.ofCause (.refl cause)) h
  | @ok e e' he =>
    change A.Outcomes _ (Eval.perform e s) (Eval.perform e' t)
    have hafter : A.Sessions (e.after s) (e'.after t) :=
      ⟨h.like.after he, A.act h.holds h.like he (hx e rfl) (hy e' rfl)⟩
    rw [Eval.perform_eq, Eval.perform_eq, Effect.outcome, Effect.outcome, h.like.failure? he]
    cases e'.failure? t with
    | none => exact .ok (he.value h.like.heap) hafter
    | some cause => exact .error (.ofCause (.refl cause)) hafter

/-! What the evaluation of a form does on its own. -/

theorem agree_freshId : A.Agree k.number Eval.freshId Eval.freshId :=
  fun _ _ h => .ok (h.like.fresh 0) ⟨h.like.nextNumber, A.fresh h.holds⟩

theorem agree_define {x : String} (hx : k.name x) {v w : Value} (hv : v.Like k w) :
    A.Agree (fun _ _ => True) (Eval.define x v) (Eval.define x w) :=
  fun _ _ h => .ok trivial ⟨h.like.define x hv, A.define h.holds hx hv⟩

theorem agree_lookUp {a b : Bindings} (hs : a.Like k b) {x : String} (hx : k.name x) :
    A.Agree (Value.Like k) (Eval.lookUp a x) (Eval.lookUp b x) := by
  intro s t h
  refine .ok (.getD ?_) h
  have hscope := hs.get? hx
  generalize a.get? x = v, b.get? x = w at hscope
  cases hscope with
  | some hv => exact .some hv
  | none => exact h.like.globals.get? hx

theorem agree_evalSymbol {a b : Bindings} (hs : a.Like k b) {x : String} (hx : k.name x) :
    A.Agree (Value.Like k) (Eval.evalSymbol a x) (Eval.evalSymbol b x) := by
  unfold Eval.evalSymbol
  cases Member.ofSymbol? x with
  | some m => exact agree_freshId.bind fun i j hij => .pure (.function (.member hij m))
  | none => exact agree_lookUp hs hx

theorem agree_callMember (m : Member) {args args' : List Value}
    (hargs : List.Forall₂ (Value.Like k) args args') :
    A.Agree (Value.Like k) (Eval.callMember access m args) (Eval.callMember access m args') := by
  intro s t h
  have hheap := h.like.heap
  cases m with
  | field name =>
    cases hargs with
    | nil => exact Agree.failSame _ s t h
    | cons hv _ => exact Agree.ofExcept (Host.field_like hheap hv name) s t h
  | method name =>
    cases hargs with
    | nil => exact Agree.failSame _ s t h
    | cons hv hrest =>
      rw [Eval.callMember_eq, Eval.callMember_eq]
      exact .perform h (Host.methodPlan_like hheap hv hrest name) (fun e => .method)
        fun e => .method
  | global path =>
    rw [Eval.callMember_eq, Eval.callMember_eq]
    exact .perform h (Host.globalPlan_like access hheap path hargs) (fun e => .of_global)
      fun e => .of_global

theorem agree_callProbe {a b : Bindings} (hs : a.Like k b) {p : Probe} (hp : k.probe p) :
    A.Agree (Value.Like k) (Eval.callProbe a p) (Eval.callProbe b p) := by
  intro s t h
  cases p with
  | depth =>
    change A.Outcomes (Value.Like k) (.ok (.ofNat s.depth) s) (.ok (.ofNat t.depth) t)
    rw [h.like.depth]
    exact .ok (.number _) h
  | trace =>
    change A.Outcomes (Value.Like k) (.ok (.list ((traceLines s.calls).map .text)) s)
      (.ok (.list ((traceLines t.calls).map .text)) t)
    rw [OpenCall.Like.traceLines h.like.calls hp]
    exact .ok (.list (Value.Like.texts id _)) h
  | locals =>
    change A.Outcomes (Value.Like k) (.ok (.ofNat a.size) s) (.ok (.ofNat b.size) t)
    rw [hs.size hp]
    exact .ok (.number _) h

/-! Sequences of forms. -/

section Sequences

variable {ev ev' : Evaluator} (hev : A.Evaluators ev ev') {a b : Bindings} (hs : a.Like k b)

include hev hs

theorem agree_evalAll {fs gs : List Form} (hf : List.Forall₂ (Form.Like k) fs gs) :
    A.Agree (List.Forall₂ (Value.Like k)) (Eval.evalAll ev a fs) (Eval.evalAll ev' b gs) := by
  induction hf with
  | nil => exact .pure .nil
  | cons hf _ ih =>
    exact .bind (hev a b _ _ hs hf) fun _ _ hv => ih.bind fun _ _ hvs => .pure (.cons hv hvs)

theorem agree_evalBody {fs gs : List Form} (hf : List.Forall₂ (Form.Like k) fs gs) {v w : Value}
    (hv : v.Like k w) :
    A.Agree (Value.Like k) (Eval.evalBody ev a v fs) (Eval.evalBody ev' b w gs) := by
  induction hf generalizing v w with
  | nil => exact .pure hv
  | cons hf _ ih => exact .bind (hev a b _ _ hs hf) fun _ _ hv => ih hv

theorem agree_evalEntries {fs gs : List (Atom × Form)} (hk : fs.map Prod.fst = gs.map Prod.fst)
    (hf : List.Forall₂ (Form.Like k) (fs.map Prod.snd) (gs.map Prod.snd))
    {es es' : List (Value × Value)} (ht : (Table.ofEntries es).Like k (.ofEntries es')) :
    A.Agree (fun t t' => t.Like k t' ∧ (∃ es, t = .ofEntries es) ∧ ∃ es, t' = .ofEntries es)
      (Eval.evalEntries ev a (.ofEntries es) fs) (Eval.evalEntries ev' b (.ofEntries es') gs) := by
  induction fs generalizing gs es es' with
  | nil =>
    obtain rfl : gs = [] := List.map_eq_nil_iff.1 hk.symm
    exact .pure ⟨ht, ⟨es, rfl⟩, es', rfl⟩
  | cons e fs ih =>
    cases gs with
    | nil => cases hk
    | cons e' gs =>
      simp only [List.map_cons, List.cons.injEq, List.forall₂_cons] at hk hf
      refine .bind (hev a b _ _ hs hf.1) fun v w hv => ?_
      have hset := ht.set (.ofAtom e'.1) hv
      rw [hk.1, ← Table.ofEntries_append, ← Table.ofEntries_append]
      rw [← Table.ofEntries_append, ← Table.ofEntries_append] at hset
      exact ih hk.2 hf.2 hset

end Sequences

theorem agree_makeTable {t t' : Table} (ht : t.Like k t') (hb : ∃ es, t = .ofEntries es)
    (hb' : ∃ es, t' = .ofEntries es) :
    A.Agree (Value.Like k) (Eval.makeTable t) (Eval.makeTable t') := by
  intro s s' h
  have hmake : LikeEffects k (.ok (.make t)) (.ok (.make t')) := .ok (.make ht)
  exact .perform h hmake (fun e he => Except.ok.inj he ▸ .literal hb)
    fun e he => Except.ok.inj he ▸ .literal hb'

/-! Application. -/

section Evaluation

variable {ev ev' : Evaluator} (hev : A.Evaluators ev ev') {a b : Bindings} (hs : a.Like k b)

include hev hs

theorem agree_callVariants (name : Option String) {args args' : List Value}
    (hargs : List.Forall₂ (Value.Like k) args args') {vs ws : List Variant}
    (hv : List.Forall₂ (Variant.Like k) vs ws) :
    A.Agree (Value.Like k) (Eval.callVariants ev a name args vs)
      (Eval.callVariants ev' b name args' ws) := by
  induction hv with
  | nil =>
    intro s t h
    have htexts := map_eq_of_forall₂ hargs fun _ _ => h.like.heap.display
    change A.Outcomes _
      (Eval.fail (.noSignature name (", ".intercalate (args.map s.heap.display))) s)
      (Eval.fail (.noSignature name (", ".intercalate (args'.map t.heap.display))) t)
    rw [htexts]
    exact Agree.failSame _ s t h
  | cons hv _ ih =>
    unfold Eval.callVariants
    rw [hv.params]
    refine .bind (.ofExcept (bind?_like _ hargs)) fun bound bound' hb => ?_
    cases hb with
    | none => exact ih
    | some hb => exact agree_evalBody hev (hs.layer hb) hv.body (.list .nil)

theorem agree_callDirect {args args' : List Value}
    (hargs : List.Forall₂ (Value.Like k) args args') {f g : Function} (hf : f.Like k g) :
    A.Agree (Value.Like k) (Eval.callDirect access ev a args f)
      (Eval.callDirect access ev' b args' g) := by
  cases hf with
  | special form => exact .failSame _
  | primitive op =>
    intro s t h
    change A.Outcomes _ (op.call args s) (op.call args' t)
    rw [op.call_eq, op.call_eq]
    exact .perform h (Primitive.plan_like h.like.heap op hargs) (fun e => .primitive)
      fun e => .primitive
  | apply => exact .pure .nil
  | probe hp => exact agree_callProbe hs hp
  | member hij m => exact agree_callMember m hargs
  | closure hij name hv => exact agree_callVariants hev hs name hargs hv

theorem agree_applyFunction {args args' : List Value}
    (hargs : List.Forall₂ (Value.Like k) args args') {f g : Function} (hf : f.Like k g) :
    A.Agree (Value.Like k) (Eval.applyFunction access ev a args f)
      (Eval.applyFunction access ev' b args' g) := by
  have hdirect := agree_callDirect hev hs hargs hf
  cases hf with
  | apply =>
    intro s t h
    exact Agree.bind (.ofExcept (spread_like h.like.heap hargs))
      (fun p q hpq => agree_callDirect hev hs hpq.2 hpq.1) s t h
  | _ => exact hdirect

end Evaluation

/-! Special forms. Reading their operands does not look at the session. -/

theorem agree_misshapen {Q : α → β → Prop} (special : SpecialForm) {m m' : Misshape}
    (h : m.Like k m') :
    A.Agree Q (Eval.misshapen special m) (Eval.misshapen special m') :=
  .fail (.misshapen special h)

theorem agree_bindingName (special : SpecialForm) {f g : Form} (hf : f.Like k g) :
    A.Agree (fun x y => x = y ∧ k.name x) (Eval.bindingName special f)
      (Eval.bindingName special g) := by
  have hother := agree_misshapen (A := A) (Q := fun x y => x = y ∧ k.name x) special (.notSymbol hf)
  cases hf with
  | symbol hx => exact .pure ⟨rfl, hx⟩
  | _ => exact hother

theorem agree_paramNames (special : SpecialForm) {fs gs : List Form}
    (hf : List.Forall₂ (Form.Like k) fs gs) :
    A.Agree Eq (Eval.paramNames special fs) (Eval.paramNames special gs) := by
  induction hf with
  | nil => exact .pure rfl
  | cons hf _ ih =>
    have hother := agree_misshapen (A := A) (Q := @Eq (List String)) special (.paramNotSymbol hf)
    cases hf with
    | symbol hx => exact ih.bind fun xs ys hxs => hxs ▸ .pure rfl
    | _ => exact hother

/-- One variant, of which the parameters have still to be read. -/
theorem agree_variant (special : SpecialForm) {params params' body body' : List Form}
    (hp : List.Forall₂ (Form.Like k) params params')
    (hb : List.Forall₂ (Form.Like k) body body') :
    A.Agree (Variant.Like k)
      (Eval.paramNames special params >>= fun params => pure (⟨params, body⟩ : Variant))
      (Eval.paramNames special params' >>= fun params => pure (⟨params, body'⟩ : Variant)) :=
  .bind (agree_paramNames special hp) fun _ _ hxs => .pure ⟨hxs, hb⟩

theorem agree_readVariant (special : SpecialForm) {f g : Form} (hf : f.Like k g) :
    A.Agree (Variant.Like k) (Eval.readVariant special f) (Eval.readVariant special g) := by
  have hcall := agree_misshapen (A := A) (Q := Variant.Like k) special (.variantWithoutParams hf)
  have hother := agree_misshapen (A := A) (Q := Variant.Like k) special (.variantNotList hf)
  cases hf with
  | call hl hitems =>
    cases hitems with
    | nil => exact hcall
    | cons hhead hbody =>
      cases hhead with
      | vector hp => exact agree_variant special hp hbody
      | call hl' hp => exact agree_variant special hp hbody
      | _ => exact hcall
  | _ => exact hother

theorem agree_readVariants (special : SpecialForm) {fs gs : List Form}
    (hf : List.Forall₂ (Form.Like k) fs gs) :
    A.Agree (List.Forall₂ (Variant.Like k)) (Eval.readVariants special fs)
      (Eval.readVariants special gs) := by
  induction hf with
  | nil => exact .pure .nil
  | cons hf _ ih =>
    exact .bind (agree_readVariant special hf) fun _ _ hv => ih.bind fun _ _ hvs =>
      .pure (.cons hv hvs)

theorem agree_functionVariants (special : SpecialForm) {fs gs : List Form}
    (hf : List.Forall₂ (Form.Like k) fs gs) :
    A.Agree (List.Forall₂ (Variant.Like k)) (Eval.functionVariants special fs)
      (Eval.functionVariants special gs) := by
  have hread := agree_readVariants (A := A) special hf
  cases hf with
  | nil => exact agree_misshapen special (.refl _)
  | cons hhead hbody =>
    cases hhead with
    | vector hp =>
      exact .bind (agree_paramNames special hp) fun _ _ hxs => .pure (.cons ⟨hxs, hbody⟩ .nil)
    | _ => exact hread

theorem agree_evalLambda {fs gs : List Form} (hf : List.Forall₂ (Form.Like k) fs gs) :
    A.Agree (Value.Like k) (Eval.evalLambda fs) (Eval.evalLambda gs) :=
  .bind (agree_functionVariants _ hf) fun _ _ hv =>
    .bind agree_freshId fun _ _ hij => .pure (.function (.closure hij none hv))

theorem agree_evalDefineFunction {fs gs : List Form} (hf : List.Forall₂ (Form.Like k) fs gs) :
    A.Agree (Value.Like k) (Eval.evalDefineFunction fs) (Eval.evalDefineFunction gs) := by
  cases hf with
  | nil => exact agree_misshapen _ (.refl _)
  | cons hname hf =>
    refine .bind (agree_bindingName _ hname) fun x y hx => ?_
    obtain ⟨rfl, hx⟩ := hx
    exact .bind (agree_functionVariants _ hf) fun _ _ hv => .bind agree_freshId fun _ _ hij =>
      .bind (agree_define hx (.function (.closure hij (some x) hv))) fun _ _ _ => .pure .nil

theorem agree_evalIsDefined {a b : Bindings} (hs : a.Like k b) {fs gs : List Form}
    (hf : List.Forall₂ (Form.Like k) fs gs) :
    A.Agree (Value.Like k) (Eval.evalIsDefined a fs) (Eval.evalIsDefined b gs) := by
  rcases hf with _ | ⟨hname, _ | ⟨hg, hf⟩⟩
  · exact agree_misshapen _ (.refl _)
  · refine .bind (agree_bindingName _ hname) fun x y hx s t h => ?_
    obtain ⟨rfl, hx⟩ := hx
    change A.Outcomes (Value.Like k) (.ok (.bool (a.contains x || s.globals.contains x)) s)
      (.ok (.bool (b.contains x || t.globals.contains x)) t)
    rw [hs.contains hx, h.like.globals.contains hx]
    exact .ok (.bool _) h
  · exact agree_misshapen _ (.refl _)

section Evaluation

variable {ev ev' : Evaluator} (hev : A.Evaluators ev ev')

include hev

theorem agree_evalDefine {fs gs : List Form} (hf : List.Forall₂ (Form.Like k) fs gs) :
    A.Agree (Value.Like k) (Eval.evalDefine ev fs) (Eval.evalDefine ev' gs) := by
  have hempty : Bindings.empty.Like k .empty := ⟨fun _ => .none, fun _ => rfl⟩
  rcases hf with _ | ⟨hname, _ | ⟨hform, _ | ⟨hg, hf⟩⟩⟩
  · exact agree_misshapen _ (.refl _)
  · refine .bind (agree_bindingName _ hname) fun x y hx => ?_
    obtain ⟨rfl, hx⟩ := hx
    exact .bind (agree_define hx .nil) fun _ _ _ => .pure .nil
  · refine .bind (agree_bindingName _ hname) fun x y hx => ?_
    obtain ⟨rfl, hx⟩ := hx
    exact .bind (hev _ _ _ _ hempty hform) fun _ _ hv =>
      .bind (agree_define hx hv) fun _ _ _ => .pure .nil
  · exact agree_misshapen _ (.refl _)

variable {a b : Bindings} (hs : a.Like k b)

include hs

theorem agree_evalIf {fs gs : List Form} (hf : List.Forall₂ (Form.Like k) fs gs) :
    A.Agree (Value.Like k) (Eval.evalIf ev a fs) (Eval.evalIf ev' b gs) := by
  have harity : A.Agree (Value.Like k)
      (Eval.fail (.arity SpecialForm.cond.name (.between 2 3) fs.length))
      (Eval.fail (.arity SpecialForm.cond.name (.between 2 3) gs.length)) := by
    rw [hf.length_eq]
    exact .failSame _
  have hask {f g : Form} (h : f.Like k g) := hev a b f g hs h
  have htruth {v w : Value} (h : v.Like k w) : v.isTruthy = true ↔ w.isTruthy = true := by
    rw [h.isTruthy]
  rcases hf with _ | ⟨htest, _ | ⟨hyes, _ | ⟨hno, _ | ⟨hg, hf⟩⟩⟩⟩
  · exact harity
  · exact harity
  · exact .bind (hask htest) fun _ _ hv => .ite (htruth hv) (hask hyes) (.pure .nil)
  · exact .bind (hask htest) fun _ _ hv => .ite (htruth hv) (hask hyes) (hask hno)
  · exact harity

theorem agree_evalClauses {v w : Value} (hv : v.Like k w) :
    ∀ {fs gs : List Form}, List.Forall₂ (Form.Like k) fs gs →
      A.Agree (Value.Like k) (Eval.evalClauses ev a v fs) (Eval.evalClauses ev' b w gs)
  | _, _, .nil => .pure .nil
  | _, _, .cons hdefault .nil => hev a b _ _ hs hdefault
  | _, _, .cons hkey (.cons hform hf) =>
    .bind (hev a b _ _ hs hkey) fun _ _ hu =>
      .ite (by rw [hv.loose hu]) (hev a b _ _ hs hform) (agree_evalClauses hv hf)

theorem agree_evalCase {fs gs : List Form} (hf : List.Forall₂ (Form.Like k) fs gs) :
    A.Agree (Value.Like k) (Eval.evalCase ev a fs) (Eval.evalCase ev' b gs) := by
  cases hf with
  | nil => exact agree_misshapen _ (.refl _)
  | cons hsubject hf =>
    exact .bind (hev a b _ _ hs hsubject) fun _ _ hv => agree_evalClauses hev hs hv hf

theorem agree_evalAnd {fs gs : List Form} (hf : List.Forall₂ (Form.Like k) fs gs) :
    A.Agree (Value.Like k) (Eval.evalAnd ev a fs) (Eval.evalAnd ev' b gs) := by
  induction hf with
  | nil => exact .pure (.bool true)
  | cons hf _ ih =>
    exact .bind (hev a b _ _ hs hf) fun _ _ hv => .ite (by rw [hv.isTruthy]) ih
      (.pure (.bool false))

theorem agree_evalOr {fs gs : List Form} (hf : List.Forall₂ (Form.Like k) fs gs) :
    A.Agree (Value.Like k) (Eval.evalOr ev a fs) (Eval.evalOr ev' b gs) := by
  induction hf with
  | nil => exact .pure (.bool false)
  | cons hf _ ih =>
    exact .bind (hev a b _ _ hs hf) fun _ _ hv => .ite (by rw [hv.isTruthy])
      (.pure (.bool true)) ih

theorem agree_evalBindings :
    ∀ {fs gs : List Form}, List.Forall₂ (Form.Like k) fs gs →
      A.Agree (List.Forall₂ (Bound.Like k)) (Eval.evalBindings ev a fs)
        (Eval.evalBindings ev' b gs)
  | _, _, .nil => .pure .nil
  | _, _, .cons hname .nil => by
    cases hname <;> exact .pure .nil
  | _, _, .cons hname (.cons hform hf) => by
    have hother := agree_misshapen (A := A) (Q := List.Forall₂ (Bound.Like k)) .binding
      (.bindingNotSymbol hname)
    cases hname with
    | symbol hx =>
      exact .bind (hev a b _ _ hs hform) fun _ _ hv => .bind (agree_evalBindings hf)
        fun _ _ hb => .pure (.cons ⟨rfl, hv⟩ hb)
    | _ => exact hother

theorem agree_evalLet {fs gs : List Form} (hf : List.Forall₂ (Form.Like k) fs gs) :
    A.Agree (Value.Like k) (Eval.evalLet ev a fs) (Eval.evalLet ev' b gs) := by
  cases hf with
  | nil => exact agree_misshapen _ (.refl _)
  | cons hhead hbody =>
    cases hhead with
    | vector hitems =>
      refine .ite (by rw [hitems.length_eq]) (agree_misshapen _ (.refl _))
        (.bind (agree_evalBindings hev hs hitems) fun _ _ hb => ?_)
      exact agree_evalBody hev (hs.layer hb) hbody .nil
    | _ => exact .failSame _

theorem agree_callSpecial {fs gs : List Form} (hf : List.Forall₂ (Form.Like k) fs gs)
    (special : SpecialForm) :
    A.Agree (Value.Like k) (Eval.callSpecial ev a fs special)
      (Eval.callSpecial ev' b gs special) := by
  cases special with
  | eval =>
    rcases hf with _ | ⟨hform, _ | ⟨hg, hf⟩⟩
    · exact agree_misshapen _ (.refl _)
    · exact hev a b _ _ hs hform
    · exact agree_misshapen _ (.refl _)
  | define => exact agree_evalDefine hev hf
  | lambda => exact agree_evalLambda hf
  | defineFunction => exact agree_evalDefineFunction hf
  | isDefined => exact agree_evalIsDefined hs hf
  | cond => exact agree_evalIf hev hs hf
  | case => exact agree_evalCase hev hs hf
  | binding => exact agree_evalLet hev hs hf
  | and => exact agree_evalAnd hev hs hf
  | or => exact agree_evalOr hev hs hf

theorem agree_evalCall {fs gs : List Form} (hf : List.Forall₂ (Form.Like k) fs gs) :
    A.Agree (Value.Like k) (Eval.evalCall access ev a fs) (Eval.evalCall access ev' b gs) := by
  cases hf with
  | nil => exact .pure .nil
  | cons hhead hf =>
    refine .bind (hev a b _ _ hs hhead) fun v w hv => ?_
    cases hv with
    | function hg =>
      have hcall := Agree.bind (agree_evalAll hev hs hf) fun args args' hargs =>
        agree_applyFunction hev hs hargs hg
      cases hg with
      | special form => exact agree_callSpecial hev hs hf form
      | _ => exact hcall
    | _ =>
      refine .bind (agree_evalAll hev hs hf) fun _ _ _ => ?_
      rw [hhead.render]
      exact .failSame _

theorem agree_step {f g : Form} (hf : f.Like k g) :
    A.Agree (Value.Like k) (Eval.step access ev a f) (Eval.step access ev' b g) := by
  cases hf with
  | atom atom => exact .pure (.ofAtom atom)
  | symbol hx => exact agree_evalSymbol hs hx
  | call hl hitems => exact agree_evalCall hev hs hitems
  | quoted hl hitems => exact .bind (agree_evalAll hev hs hitems) fun _ _ hvs => .pure (.list hvs)
  | vector hitems => exact .bind (agree_evalAll hev hs hitems) fun _ _ hvs => .pure (.list hvs)
  | table hk hf =>
    have hnil : (Table.ofEntries []).Like k (.ofEntries []) := .nil
    exact .bind (agree_evalEntries hev hs hk hf hnil) fun _ _ ht =>
      agree_makeTable ht.1 ht.2.1 ht.2.2

end Evaluation

theorem agree_framed {f g : Form} (hf : f.Like k g) {x y : Eval Value}
    (h : A.Agree (Value.Like k) x y) :
    A.Agree (Value.Like k) (Eval.framed f x) (Eval.framed g y) := by
  intro s t hst
  have hleave {s t : Session} (h : A.Sessions s t) : A.Sessions (s.leave f) (t.leave g) :=
    ⟨h.like.leave hf, A.leave h.holds hf⟩
  have hxy := h _ _ ⟨hst.like.enter hf, A.enter hst.holds hf⟩
  unfold Eval.framed
  generalize x (s.enter f) = r at hxy
  generalize y (t.enter g) = r' at hxy
  cases hxy with
  | ok hv h => exact .ok hv (hleave h)
  | error he h => exact .error (he.annotate h.like.calls) (hleave h)

end Accord

/-- Evaluation keeps to every accord. -/
theorem Accord.evaluators {access : Access} (A : Accord access k) (room : Nat) :
    A.Evaluators (evaluate access room) (evaluate access room) := by
  induction room with
  | zero =>
    intro a b f g _ _ s t h
    change A.Outcomes _ (.error (.ofCause (.overflow s.depth)) s)
      (.error (.ofCause (.overflow t.depth)) t)
    rw [h.like.depth]
    exact Agree.failSame _ s t h
  | succ room ih =>
    intro a b f g hs hf
    exact agree_framed hf (agree_step ih hs hf)

namespace Config

variable {config : Config} (A : Accord config.access k)

theorem evaluators : A.Evaluators config.evaluate config.evaluate := by
  intro a b f g hs hf s t h
  unfold Config.evaluate
  rw [h.like.depth]
  exact A.evaluators _ a b f g hs hf s t h

theorem agree_runForms {fs gs : List Form} (hf : List.Forall₂ (Form.Like k) fs gs) :
    A.Agree (Value.Like k) (config.runForms fs) (config.runForms gs) :=
  Accord.agree_evalBody (evaluators A) ⟨fun _ => .none, fun _ => rfl⟩ hf .nil

/-- A run that is compared with itself. -/
theorem runSource_sessions (hforms : ∀ f : Form, f.Like k f) (file source : String) {s : Session}
    (h : A.Sessions s s) :
    A.Sessions (Outcome.session (config.runSource file source s))
      (Outcome.session (config.runSource file source s)) := by
  unfold runSource
  cases parse file source with
  | error e => exact h
  | ok forms => exact (agree_runForms A (List.forall₂_same.2 fun f _ => hforms f) s s h).sessions

end Config

/-! What lies outside a likeness is left alone, and both runs write the same. -/

/-- Other names and other tables are as they were. -/
structure Session.Spares (k : Likeness) (s t : Session) : Prop where
  globals {x : String} (hx : ¬k.name x) : t.globals.get? x = s.globals.get? x
  heap {id : TableId} (hid : ¬k.table id) : t.heap.get id = s.heap.get id

/-- The texts written on the way from one session to another. -/
def Session.Writes (s t : Session) (output diagnostics : String) : Prop :=
  t.output = s.output ++ output ∧ t.diagnostics = s.diagnostics ++ diagnostics

namespace Session

theorem Spares.refl (s : Session) : s.Spares k s := ⟨fun _ => rfl, fun _ => rfl⟩

theorem Spares.define {s t : Session} (h : s.Spares k t) {x : String} (hx : k.name x) (v : Value) :
    s.Spares k { t with globals := t.globals.insert x v } where
  globals hy := by
    rw [Bindings.get?_insert, if_neg]
    · exact h.globals hy
    · rintro rfl
      exact hy hx
  heap := h.heap

theorem Spares.after {s t : Session} (h : s.Spares k t) {e : Effect}
    (hsize : ∀ {id}, t.heap.size ≤ id → k.table id)
    (hchange : ∀ {id t v}, e = .change id t v → k.table id) : s.Spares k (e.after t) where
  globals hx := by
    rw [Effect.globals_after]
    exact h.globals hx
  heap hid := by
    rw [Effect.heap_after, Effect.get_heap]
    · exact h.heap hid
    · exact Nat.lt_of_not_le fun hle => hid (hsize hle)
    · exact fun t v he => hid (hchange he)

theorem Writes.refl (s : Session) : s.Writes s "" "" := ⟨by simp, by simp⟩

theorem Writes.trans {s t u : Session} {output output' diagnostics diagnostics' : String}
    (h : s.Writes t output diagnostics) (h' : t.Writes u output' diagnostics') :
    s.Writes u (output ++ output') (diagnostics ++ diagnostics') :=
  ⟨by rw [h'.1, h.1, String.append_assoc], by rw [h'.2, h.2, String.append_assoc]⟩

/-- What is written of a line hangs on the answer of the device only. -/
theorem exists_writes_hand (channel : Channel) (line : String) (refusal? : Option Refusal) :
    ∃ output diagnostics, ∀ s : Session, s.devices.refusal? channel = refusal? →
      s.Writes (s.hand channel line) output diagnostics := by
  cases refusal? with
  | none =>
    cases channel with
    | output =>
      refine ⟨line ++ "\n", "", fun s hr => ⟨?_, ?_⟩⟩ <;>
        simp [hand, hr, write, String.append_assoc]
    | diagnostics =>
      refine ⟨"", line ++ "\n", fun s hr => ⟨?_, ?_⟩⟩ <;>
        simp [hand, hr, write, String.append_assoc]
  | some r =>
    cases channel with
    | output => refine ⟨r.part line, "", fun s hr => ⟨?_, ?_⟩⟩ <;> simp [hand, hr, emit]
    | diagnostics => refine ⟨"", r.part line, fun s hr => ⟨?_, ?_⟩⟩ <;> simp [hand, hr, emit]

end Session

theorem Effect.Like.writes {e e' : Effect} (h : e.Like k e') {s t : Session}
    (hdevices : s.devices = t.devices) :
    ∃ output diagnostics,
      s.Writes (e.after s) output diagnostics ∧ t.Writes (e'.after t) output diagnostics := by
  cases h with
  | write channel line =>
    obtain ⟨output, diagnostics, hwrites⟩ :=
      Session.exists_writes_hand channel line (t.devices.refusal? channel)
    exact ⟨output, diagnostics, hwrites s (by rw [hdevices]), hwrites t rfl⟩
  | _ => exact ⟨"", "", ⟨by simp [Effect.after], by simp [Effect.after]⟩,
      ⟨by simp [Effect.after], by simp [Effect.after]⟩⟩

/-- Both runs leave alone what lies outside the likeness, and have written the same. -/
structure Session.Spare (k : Likeness) (s t s' t' : Session) : Prop where
  left : s.Spares k s'
  right : t.Spares k t'
  writes : ∃ output diagnostics,
    s.Writes s' output diagnostics ∧ t.Writes t' output diagnostics

theorem Session.Spare.refl (s t : Session) : s.Spare k t s t :=
  ⟨.refl s, .refl t, "", "", .refl s, .refl t⟩

/-- The accord of runs that start from two sessions. -/
def Accord.sparing (access : Access) (k : Likeness) (s t : Session) : Accord access k where
  holds := s.Spare k t
  enter h hf := by
    cases hf <;> exact ⟨⟨h.left.globals, h.left.heap⟩, ⟨h.right.globals, h.right.heap⟩, h.writes⟩
  leave h hf := by
    cases hf <;> exact ⟨⟨h.left.globals, h.left.heap⟩, ⟨h.right.globals, h.right.heap⟩, h.writes⟩
  fresh h := ⟨⟨h.left.globals, h.left.heap⟩, ⟨h.right.globals, h.right.heap⟩, h.writes⟩
  define h hx hv := ⟨h.left.define hx _, h.right.define hx _, h.writes⟩
  act {s' t' e e'} h hst hl _ _ := by
    obtain ⟨output, diagnostics, hs, ht⟩ := h.writes
    obtain ⟨output', diagnostics', hwrites⟩ := hl.writes hst.devices
    refine ⟨h.left.after hst.heap.further ?_, h.right.after ?_ ?_, _, _,
      hs.trans hwrites.1, ht.trans hwrites.2⟩
    · rintro id t v rfl
      cases hl with
      | change hid => exact hid
    · exact fun hid => hst.heap.further (hst.heap.size ▸ hid)
    · rintro id t v rfl
      cases hl with
      | change hid => exact hid

/-- Like forms in like scopes and sessions: the values or failures are alike, the sessions are alike
again, nothing else has changed and the same has been written. -/
theorem Config.evaluate_like (config : Config) {a b : Bindings} (hs : a.Like k b) {f g : Form}
    (hf : f.Like k g) {s t : Session} (hst : s.Like k t) :
    (Accord.sparing config.access k s t).Outcomes (Value.Like k) (config.evaluate a f s)
      (config.evaluate b g t) :=
  evaluators _ a b f g hs hf s t ⟨hst, .refl s t⟩

end Lisplet
