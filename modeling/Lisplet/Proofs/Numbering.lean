import Lisplet.Proofs.Accords
import Lisplet.Proofs.Frames

/-!
Numbers of functions. A session counts the functions it makes, and every function that it or the
scope holds has a number below the count. Each thing that the evaluation of a form does on its own
keeps to this, so whole evaluations do, and so do all sessions that programs lead to.
-/

namespace Lisplet

def Function.Made (n : Nat) : Function → Prop
  | .member i _ | .closure i _ _ => i < n
  | _ => True

/-- The function is the value, or stands in it through lists. -/
inductive Value.Holds (f : Function) : Value → Prop
  | self : Holds f (.function f)
  | item {items : List Value} {v : Value} (hv : v ∈ items) (h : Holds f v) : Holds f (.list items)

def Value.Made (n : Nat) (v : Value) : Prop := ∀ f, v.Holds f → f.Made n

/-- Every function in the session and in the scope has been made by now. -/
structure Session.Numbered (s : Session) (scope : Bindings) : Prop where
  heap : ∀ id, ∀ e ∈ s.heap.get id, e.1.Made s.fresh ∧ e.2.Made s.fresh
  globals : ∀ x v, s.globals.get? x = some v → v.Made s.fresh
  scope : ∀ x v, scope.get? x = some v → v.Made s.fresh

def Values.Made (n : Nat) (vs : List Value) : Prop := ∀ v ∈ vs, v.Made n

def Bindings.Made (n : Nat) (b : Bindings) : Prop := ∀ x v, b.get? x = some v → v.Made n

def Bound.Made (n : Nat) (bound : List (String × Value)) : Prop := ∀ e ∈ bound, e.2.Made n

def Table.Made (n : Nat) (t : Table) : Prop := ∀ e ∈ t, e.1.Made n ∧ e.2.Made n

section Mono

variable {m n : Nat} (hle : n ≤ m)

include hle

theorem Function.Made.mono {f : Function} (h : f.Made n) : f.Made m := by
  cases f with
  | member i _ | closure i _ _ => exact Nat.lt_of_lt_of_le h hle
  | _ => trivial

theorem Value.Made.mono {v : Value} (h : v.Made n) : v.Made m := fun f hf => (h f hf).mono hle

theorem Values.Made.mono {vs : List Value} (h : Values.Made n vs) : Values.Made m vs :=
  fun v hv => (h v hv).mono hle

theorem Bindings.Made.mono {b : Bindings} (h : b.Made n) : b.Made m :=
  fun x v hv => (h x v hv).mono hle

theorem Table.Made.mono {t : Table} (h : t.Made n) : t.Made m :=
  fun e he => ⟨(h e he).1.mono hle, (h e he).2.mono hle⟩

end Mono

theorem Bindings.mem_of_find {entries : List (String × Value)} {x : String} {v : Value}
    (h : find entries x = some v) : (x, v) ∈ entries := by
  induction entries with
  | nil => cases h
  | cons e entries ih =>
    obtain ⟨name, value⟩ := e
    rw [find] at h
    split at h
    · rename_i hname
      subst hname
      cases h
      exact List.mem_cons_self
    · exact List.mem_cons_of_mem _ (ih h)

theorem Bindings.made_of_entries {n : Nat} {entries : List (String × Value)}
    (h : Bound.Made n entries) : Bindings.Made n ⟨entries⟩ :=
  fun _ _ hv => h _ (mem_of_find hv)

/-! What has been made is what is like itself where only numbers below the count are. -/

def Likeness.below (n : Nat) : Likeness :=
  { Likeness.same with
    number := fun i j => i = j ∧ i < n
    number_iff := by
      rintro i j i' j' ⟨rfl, -⟩ ⟨rfl, -⟩
      rfl }

section Below

variable {n : Nat}

theorem Function.Made.like {f : Function} (h : f.Made n) : f.Like (.below n) f := by
  refine f.like_self (fun _ => rfl) (fun _ _ => trivial) ?_ ?_
  · rintro i m rfl
    exact ⟨rfl, h⟩
  · rintro i name variants rfl
    exact ⟨⟨rfl, h⟩, fun _ _ _ _ _ _ => trivial⟩

theorem Function.Like.made {f : Function} (h : f.Like (.below n) f) : f.Made n := by
  cases h with
  | member h _ => exact h.2
  | closure h _ _ => exact h.2
  | _ => trivial

@[simp] theorem Value.made_nil : Value.nil.Made n := by
  rintro f ⟨⟩

@[simp] theorem Value.made_function {f : Function} : (Value.function f).Made n ↔ f.Made n := by
  constructor
  · exact fun h => h f .self
  · rintro h g ⟨⟩
    exact h

theorem Value.made_list {items : List Value} : (Value.list items).Made n ↔ Values.Made n items := by
  constructor
  · intro h v hv f hf
    exact h f (.item hv hf)
  · intro h f hf
    cases hf with
    | item hv hf => exact h _ hv f hf

theorem Value.Made.like {v : Value} (h : v.Made n) : v.Like (.below n) v :=
  v.like_of (P := Value.Made n) made_list.1 (fun _ => trivial)
    (fun hf => (made_function.1 hf).like) h

theorem Value.Like.made {v : Value} (h : v.Like (.below n) v) : v.Made n := by
  intro f hf
  induction hf with
  | self =>
    cases h with
    | function h => exact h.made
  | item hv _ ih =>
    cases h with
    | list h => exact ih (List.forall₂_same.1 h _ hv)

theorem Values.like_iff {vs : List Value} :
    List.Forall₂ (Value.Like (.below n)) vs vs ↔ Values.Made n vs := by
  rw [List.forall₂_same]
  exact ⟨fun h v hv => (h v hv).made, fun h v hv => (h v hv).like⟩

theorem Bindings.like_iff {b : Bindings} : b.Like (.below n) b ↔ b.Made n :=
  ⟨fun h _ _ hv => (h.value trivial hv).made,
    fun h => Bindings.like_self fun x v _ hv => (h x v hv).like⟩

theorem Bindings.Made.layer {b : Bindings} (h : b.Made n) {bound : List (String × Value)}
    (hb : Bound.Made n bound) : (b.layer bound).Made n :=
  like_iff.1 ((like_iff.2 h).layer (List.forall₂_same.2 fun e he => ⟨rfl, (hb e he).like⟩))

theorem Table.like_iff {t : Table} : t.Like (.below n) t ↔ t.Made n := by
  unfold Table.Like
  rw [List.forall₂_same]
  exact ⟨fun h e he => ⟨(h e he).1.made, (h e he).2.made⟩,
    fun h e he => ⟨(h e he).1.like, (h e he).2.like⟩⟩

theorem Heap.like_iff {h : Heap} : h.Like (.below n) h ↔ ∀ id, (h.get id).Made n :=
  ⟨fun hh _ => Table.like_iff.1 (hh.get trivial),
    fun hh => ⟨rfl, fun _ => Table.like_iff.2 (hh _), fun _ => trivial⟩⟩

theorem Params.made_of_bind? {params : List String} {args : List Value}
    {bound : List (String × Value)} (hargs : Values.Made n args)
    (h : bind? params args = .ok (some bound)) : Bound.Made n bound := by
  have hlike := bind?_like params (Values.like_iff.2 hargs)
  rw [h] at hlike
  cases hlike with
  | ok h =>
    cases h with
    | some h => exact fun e he => (List.forall₂_same.1 h e he).2.made

theorem made_of_spread {h : Heap} {args args' : List Value} {f : Function}
    (hh : ∀ id, (h.get id).Made n) (hargs : Values.Made n args)
    (hs : spread h args = .ok (f, args')) : Values.Made n args' := by
  have hlike := spread_like (Heap.like_iff.2 hh) (Values.like_iff.2 hargs)
  rw [hs] at hlike
  cases hlike with
  | ok h => exact Values.like_iff.1 h.2

end Below

theorem Session.fresh_enter (s : Session) (form : Form) : (s.enter form).fresh = s.fresh := by
  cases form <;> rfl

theorem Session.fresh_leave (s : Session) (form : Form) : (s.leave form).fresh = s.fresh := by
  cases form <;> rfl

namespace Session.Numbered

variable {s : Session}

theorem ofSession {scope : Bindings} (h : s.Numbered scope) : s.Numbered .empty :=
  ⟨h.heap, h.globals, by rintro x v ⟨⟩⟩

theorem next (h : s.Numbered .empty) :
    Session.Numbered { s with fresh := s.fresh + 1 } .empty := by
  have hle := Nat.le_succ s.fresh
  refine ⟨fun id => Table.Made.mono hle (h.heap id), Bindings.Made.mono hle h.globals, ?_⟩
  rintro x v ⟨⟩

theorem define (h : s.Numbered .empty) (x : String) {v : Value} (hv : v.Made s.fresh) :
    Session.Numbered { s with globals := s.globals.insert x v } .empty := by
  have hlike := (Bindings.like_iff.2 h.globals).insert x hv.like
  exact ⟨h.heap, Bindings.like_iff.1 hlike, h.scope⟩

theorem after (h : s.Numbered .empty) {e : Effect} (he : e.Like (.below s.fresh) e) :
    (e.after s).Numbered .empty := by
  have hheap := he.heap (Heap.like_iff.2 h.heap)
  have hfresh := e.fresh_after s
  refine ⟨?_, ?_, ?_⟩
  · rw [hfresh, e.heap_after]
    exact Heap.like_iff.1 hheap
  · rw [hfresh, e.globals_after]
    exact h.globals
  · rw [hfresh]
    exact h.scope

theorem enter (h : s.Numbered .empty) (form : Form) : (s.enter form).Numbered .empty := by
  cases form <;> exact ⟨h.heap, h.globals, h.scope⟩

theorem leave (h : s.Numbered .empty) (form : Form) : (s.leave form).Numbered .empty := by
  cases form <;> exact ⟨h.heap, h.globals, h.scope⟩

end Session.Numbered

/-- The count has not gone below `n`, what the session holds has been made, and so has what comes
out, as far as `P` says. -/
inductive Outcome.Numbers {α : Type} (P : Nat → α → Prop) (n : Nat) : Outcome α → Prop
  | ok {a : α} {t : Session} (hn : n ≤ t.fresh) (ht : t.Numbered .empty) (ha : P t.fresh a) :
      Numbers P n (.ok a t)
  | error {e : Failure} {t : Session} (hn : n ≤ t.fresh) (ht : t.Numbered .empty) :
      Numbers P n (.error e t)

theorem Outcome.Numbers.lower {α : Type} {P : Nat → α → Prop} {m n : Nat} {r : Outcome α}
    (h : Numbers P m r) (hle : n ≤ m) : Numbers P n r := by
  cases h with
  | ok hn ht ha => exact .ok (hle.trans hn) ht ha
  | error hn ht => exact .error (hle.trans hn) ht

theorem Outcome.Numbers.session {α : Type} {P : Nat → α → Prop} {n : Nat} {r : Outcome α}
    (h : Numbers P n r) : n ≤ r.session.fresh ∧ r.session.Numbered .empty := by
  cases h with
  | ok hn ht _ => exact ⟨hn, ht⟩
  | error hn ht => exact ⟨hn, ht⟩

namespace Eval

/-- What the computation does once the count is at `n`. -/
def Numbers {α : Type} (P : Nat → α → Prop) (n : Nat) (x : Eval α) : Prop :=
  ∀ s, n ≤ s.fresh → s.Numbered .empty → Outcome.Numbers P s.fresh (x s)

end Eval

def Evaluator.Numbers (ev : Evaluator) : Prop :=
  ∀ n scope form, scope.Made n → Eval.Numbers Value.Made n (ev scope form)

namespace Eval

namespace Numbers

variable {α β : Type} {P : Nat → α → Prop} {Q : Nat → β → Prop} {n : Nat}

theorem pure {a : α} (h : ∀ m, n ≤ m → P m a) : Numbers P n (Pure.pure a) :=
  fun s hs hnum => .ok le_rfl hnum (h s.fresh hs)

theorem fail (cause : Cause) : Numbers P n (Eval.fail cause) :=
  fun _ _ hnum => .error le_rfl hnum

theorem bind {x : Eval β} {f : β → Eval α} (hx : Numbers Q n x)
    (hf : ∀ m b, n ≤ m → Q m b → Numbers P m (f b)) : Numbers P n (x >>= f) := by
  intro s hs hnum
  rw [Outcome.bind_apply]
  have hfirst := hx s hs hnum
  generalize x s = r at hfirst
  cases hfirst with
  | ok hn ht hb => exact (hf _ _ (hs.trans hn) hb _ le_rfl ht).lower hn
  | error hn ht => exact .error hn ht

theorem ite {c : Prop} [Decidable c] {x y : Eval α} (hx : Numbers P n x) (hy : Numbers P n y) :
    Numbers P n (if c then x else y) := by
  split
  · exact hx
  · exact hy

theorem ofExcept {x : Except Cause α} (h : ∀ a, x = .ok a → ∀ m, n ≤ m → P m a) :
    Numbers P n (Eval.ofExcept x) := by
  cases x with
  | ok a => exact pure (h a rfl)
  | error cause => exact fail cause

/-- A value without functions. -/
theorem scalar {v : Value} (h : ∀ k : Likeness, v.Like k v) :
    Numbers Value.Made n (Pure.pure v) := pure fun m _ => (h (.below m)).made

end Numbers

variable {n : Nat}

/-! What the evaluation of a form does on its own. -/

theorem numbers_freshId : Numbers (fun m i => i < m) n freshId :=
  fun s _ hnum => .ok (Nat.le_succ s.fresh) hnum.next (Nat.lt_succ_self s.fresh)

theorem numbers_define (x : String) {v : Value} (hv : v.Made n) :
    Numbers (fun _ _ => True) n (define x v) :=
  fun _ hs hnum => .ok le_rfl (hnum.define x (hv.mono hs)) trivial

theorem numbers_of_plan {x : Eval Value} (plan : Heap → Except Cause Effect)
    (h : ∀ s, x s = (Eval.ofExcept (plan s.heap) >>= perform) s)
    (hplan : ∀ m, n ≤ m → ∀ heap : Heap, heap.Like (.below m) heap →
      LikeEffects (.below m) (plan heap) (plan heap)) : Numbers Value.Made n x := by
  intro s hs hnum
  have hheap := Heap.like_iff.2 hnum.heap
  have hlike := hplan s.fresh hs s.heap hheap
  rw [h]
  generalize plan s.heap = effect at hlike
  cases hlike with
  | error cause => exact .error le_rfl hnum
  | @ok e _ he =>
    change Outcome.Numbers Value.Made s.fresh (perform e s)
    rw [perform_eq, Effect.outcome]
    have hfresh := (e.fresh_after s).ge
    cases e.failure? s with
    | none => exact .ok hfresh (hnum.after he) ((he.value hheap).made.mono hfresh)
    | some cause => exact .error hfresh (hnum.after he)

theorem numbers_makeTable {t : Table} (ht : t.Made n) : Numbers Value.Made n (makeTable t) :=
  numbers_of_plan (fun _ => .ok (.make t)) (fun _ => rfl) fun _ hm _ _ =>
    .ok (.make (Table.like_iff.2 (ht.mono hm)))

theorem numbers_lookUp {scope : Bindings} (hscope : scope.Made n) (x : String) :
    Numbers Value.Made n (lookUp scope x) := by
  intro s hs hnum
  refine .ok le_rfl hnum ?_
  cases hlocal : scope.get? x with
  | some v => exact (hscope x v hlocal).mono hs
  | none =>
    cases hglobal : s.globals.get? x with
    | some v => exact hnum.globals x v hglobal
    | none => exact Value.made_nil

theorem numbers_function {f : Nat → Function} (hf : ∀ m i, i < m → (f i).Made m) :
    Numbers Value.Made n (freshId >>= fun i => pure (.function (f i))) :=
  .bind numbers_freshId fun m i _ hi => .pure fun _ hle =>
    Value.made_function.2 ((hf m i hi).mono hle)

theorem numbers_evalSymbol {scope : Bindings} (hscope : scope.Made n) (x : String) :
    Numbers Value.Made n (evalSymbol scope x) := by
  unfold evalSymbol
  cases Member.ofSymbol? x with
  | none => exact numbers_lookUp hscope x
  | some m => exact numbers_function fun _ _ hi => hi

theorem numbers_callProbe (scope : Bindings) (p : Probe) :
    Numbers Value.Made n (callProbe scope p) := by
  intro s _ hnum
  cases p with
  | depth => exact .ok le_rfl hnum (Value.Like.number _).made
  | trace => exact .ok le_rfl hnum (Value.Like.list (Value.Like.texts id _)).made
  | locals => exact .ok le_rfl hnum (Value.Like.number _).made

/-! Sequences of forms, in the order in which they are evaluated. -/

section Evaluation

variable {ev : Evaluator} (hev : Evaluator.Numbers ev)

include hev

theorem numbers_evalAll {scope : Bindings} (hscope : scope.Made n) (forms : List Form) :
    Numbers Values.Made n (evalAll ev scope forms) := by
  induction forms generalizing n with
  | nil => exact .pure fun _ _ v hv => by cases hv
  | cons form forms ih =>
    refine .bind (hev n scope form hscope) fun m v hm hv => ?_
    refine .bind (ih (hscope.mono hm)) fun m' vs hm' hvs => .pure fun l hl => ?_
    exact List.forall_mem_cons.2 ⟨hv.mono (hm'.trans hl), hvs.mono hl⟩

theorem numbers_evalBody {scope : Bindings} (hscope : scope.Made n) {last : Value}
    (hlast : last.Made n) (forms : List Form) :
    Numbers Value.Made n (evalBody ev scope last forms) := by
  induction forms generalizing n last with
  | nil => exact .pure fun _ hm => hlast.mono hm
  | cons form forms ih =>
    exact .bind (hev n scope form hscope) fun m v hm hv => ih (hscope.mono hm) hv

theorem numbers_evalEntries {scope : Bindings} (hscope : scope.Made n) {t : Table}
    (ht : t.Made n) (entries : List (Atom × Form)) :
    Numbers Table.Made n (evalEntries ev scope t entries) := by
  induction entries generalizing n t with
  | nil => exact .pure fun _ hm => ht.mono hm
  | cons entry entries ih =>
    refine .bind (hev n scope entry.2 hscope) fun m v hm hv => ih (hscope.mono hm) ?_
    exact Table.like_iff.1 ((Table.like_iff.2 (ht.mono hm)).set (.ofAtom entry.1) hv.like)

/-! Application. -/

theorem numbers_callVariants {scope : Bindings} (hscope : scope.Made n) (name : Option String)
    {args : List Value} (hargs : Values.Made n args) (variants : List Variant) :
    Numbers Value.Made n (callVariants ev scope name args variants) := by
  induction variants generalizing n with
  | nil => exact fun _ _ hnum => .error le_rfl hnum
  | cons variant variants ih =>
    refine .bind (Q := fun m bound? => ∀ bound, bound? = some bound → Bound.Made m bound)
      (.ofExcept ?_) fun m bound? hm hbound => ?_
    · rintro _ hbind m hm bound rfl
      exact Params.made_of_bind? (hargs.mono hm) hbind
    · cases bound? with
      | none => exact ih (hscope.mono hm) (hargs.mono hm)
      | some bound =>
        exact numbers_evalBody hev ((hscope.mono hm).layer (hbound bound rfl))
          (Value.Like.list .nil).made variant.body

theorem numbers_callDirect (access : Access) {scope : Bindings} (hscope : scope.Made n)
    {args : List Value} (hargs : Values.Made n args) (f : Function) :
    Numbers Value.Made n (callDirect access ev scope args f) := by
  have hlike {m : Nat} (hm : n ≤ m) := Values.like_iff.2 (hargs.mono hm)
  cases f with
  | special form => exact .fail _
  | primitive op =>
    exact numbers_of_plan (op.plan · args) (op.call_eq args) fun m hm heap hheap =>
      Primitive.plan_like hheap op (hlike hm)
  | apply => exact .scalar fun _ => .nil
  | probe p => exact numbers_callProbe scope p
  | member id m =>
    exact numbers_of_plan (Host.memberPlan access · m args) (callMember_eq access m args)
      fun l hl heap hheap => Host.memberPlan_like access hheap m (hlike hl)
  | closure id name variants => exact numbers_callVariants hev hscope name hargs variants

theorem numbers_applyFunction (access : Access) {scope : Bindings} (hscope : scope.Made n)
    {args : List Value} (hargs : Values.Made n args) (f : Function) :
    Numbers Value.Made n (applyFunction access ev scope args f) := by
  cases f with
  | apply =>
    intro s hs hnum
    have hspread : Numbers (fun m p => Values.Made m p.2) s.fresh
        (Eval.ofExcept (spread s.heap args)) := by
      refine .ofExcept fun p hp m hm => ?_
      exact (made_of_spread hnum.heap (hargs.mono hs) hp).mono hm
    exact Numbers.bind hspread (fun m p hm hp =>
      numbers_callDirect hev access (hscope.mono (hs.trans hm)) hp p.1) s le_rfl hnum
  | _ =>
    simp only [applyFunction]
    exact numbers_callDirect hev access hscope hargs _

end Evaluation

/-! Special forms. Reading their operands makes nothing. -/

theorem numbers_bindingName (special : SpecialForm) (form : Form) :
    Numbers (fun _ _ => True) n (bindingName special form) := by
  cases form with
  | symbol name => exact .pure fun _ _ => trivial
  | _ => exact .fail _

theorem numbers_paramNames (special : SpecialForm) (forms : List Form) :
    Numbers (fun _ _ => True) n (paramNames special forms) := by
  induction forms generalizing n with
  | nil => exact .pure fun _ _ => trivial
  | cons form forms ih =>
    cases form with
    | symbol name => exact .bind ih fun _ _ _ _ => .pure fun _ _ => trivial
    | _ => exact .fail _

theorem numbers_readVariants (special : SpecialForm) (forms : List Form) :
    Numbers (fun _ _ => True) n (readVariants special forms) := by
  have hparams {m : Nat} (params body : List Form) : Numbers (fun _ _ => True) m
      (paramNames special params >>= fun params => pure (⟨params, body⟩ : Variant)) :=
    .bind (numbers_paramNames special params) fun _ _ _ _ => .pure fun _ _ => trivial
  have hread {m : Nat} (form : Form) :
      Numbers (fun _ _ => True) m (readVariant special form) := by
    unfold readVariant
    split
    · exact hparams _ _
    · exact hparams _ _
    · exact .fail _
    · exact .fail _
  induction forms generalizing n with
  | nil => exact .pure fun _ _ => trivial
  | cons form forms ih =>
    exact .bind (hread form) fun _ _ _ _ => .bind ih fun _ _ _ _ => .pure fun _ _ => trivial

theorem numbers_functionVariants (special : SpecialForm) (forms : List Form) :
    Numbers (fun _ _ => True) n (functionVariants special forms) := by
  unfold functionVariants
  split
  · exact .fail _
  · exact .bind (numbers_paramNames special _) fun _ _ _ _ => .pure fun _ _ => trivial
  · exact numbers_readVariants special forms

theorem numbers_evalLambda (forms : List Form) : Numbers Value.Made n (evalLambda forms) :=
  .bind (numbers_functionVariants _ forms) fun _ _ _ _ => numbers_function fun _ _ hi => hi

theorem numbers_evalDefineFunction (forms : List Form) :
    Numbers Value.Made n (evalDefineFunction forms) := by
  cases forms with
  | nil => exact .fail _
  | cons name forms =>
    refine .bind (numbers_bindingName _ name) fun _ x _ _ => ?_
    refine .bind (numbers_functionVariants _ forms) fun _ variants _ _ => ?_
    refine .bind numbers_freshId fun m i _ hi => ?_
    exact .bind (numbers_define x (Value.made_function.2 hi)) fun _ _ _ _ => .scalar fun _ => .nil

theorem numbers_evalIsDefined (scope : Bindings) (forms : List Form) :
    Numbers Value.Made n (evalIsDefined scope forms) := by
  unfold evalIsDefined
  split
  · exact .bind (numbers_bindingName _ _) fun _ _ _ _ _ _ hnum =>
      .ok le_rfl hnum (Value.Like.bool _).made
  · exact .fail _

section Evaluation

variable {ev : Evaluator} (hev : Evaluator.Numbers ev)

include hev

theorem numbers_evalDefine (forms : List Form) : Numbers Value.Made n (evalDefine ev forms) := by
  unfold evalDefine
  split
  · refine .bind (numbers_bindingName _ _) fun _ x _ _ => ?_
    exact .bind (numbers_define x Value.made_nil) fun _ _ _ _ => .scalar fun _ => .nil
  · refine .bind (numbers_bindingName _ _) fun _ x _ _ => ?_
    refine .bind (hev _ .empty _ (by rintro x v ⟨⟩)) fun _ v _ hv => ?_
    exact .bind (numbers_define x hv) fun _ _ _ _ => .scalar fun _ => .nil
  · exact .fail _

variable {scope : Bindings} (hscope : scope.Made n)

include hscope

theorem numbers_evalIf (forms : List Form) : Numbers Value.Made n (evalIf ev scope forms) := by
  have hask {m : Nat} (hm : n ≤ m) (form : Form) := hev m scope form (hscope.mono hm)
  unfold evalIf
  split
  · exact .bind (hask le_rfl _) fun _ _ hm _ => .ite (hask hm _) (.scalar fun _ => .nil)
  · exact .bind (hask le_rfl _) fun _ _ hm _ => .ite (hask hm _) (hask hm _)
  · exact .fail _

theorem numbers_evalClauses (subject : Value) (clauses : List Form) :
    Numbers Value.Made n (evalClauses ev scope subject clauses) := by
  induction clauses using List.twoStepInduction generalizing n with
  | nil => exact .scalar fun _ => .nil
  | singleton default => exact hev n scope default hscope
  | cons_cons key form clauses ih _ =>
    refine .bind (hev n scope key hscope) fun m _ hm _ => ?_
    exact .ite (hev m scope form (hscope.mono hm)) (ih (hscope.mono hm))

theorem numbers_evalCase (forms : List Form) : Numbers Value.Made n (evalCase ev scope forms) := by
  cases forms with
  | nil => exact .fail _
  | cons subject clauses =>
    exact .bind (hev n scope subject hscope) fun _ v hm _ =>
      numbers_evalClauses hev (hscope.mono hm) v clauses

theorem numbers_evalAnd (forms : List Form) : Numbers Value.Made n (evalAnd ev scope forms) := by
  induction forms generalizing n with
  | nil => exact .scalar fun _ => .bool true
  | cons form forms ih =>
    exact .bind (hev n scope form hscope) fun _ _ hm _ =>
      .ite (ih (hscope.mono hm)) (.scalar fun _ => .bool false)

theorem numbers_evalOr (forms : List Form) : Numbers Value.Made n (evalOr ev scope forms) := by
  induction forms generalizing n with
  | nil => exact .scalar fun _ => .bool false
  | cons form forms ih =>
    exact .bind (hev n scope form hscope) fun _ _ hm _ =>
      .ite (.scalar fun _ => .bool true) (ih (hscope.mono hm))

theorem numbers_evalBindings (items : List Form) :
    Numbers Bound.Made n (evalBindings ev scope items) := by
  have hnil {m : Nat} : Numbers Bound.Made m (Pure.pure []) := .pure fun _ _ e he => by cases he
  induction items using List.twoStepInduction generalizing n with
  | nil => exact hnil
  | singleton name => cases name <;> exact hnil
  | cons_cons name form items ih _ =>
    cases name with
    | symbol x =>
      refine .bind (hev n scope form hscope) fun m v hm hv => ?_
      refine .bind (ih (hscope.mono hm)) fun m' bound hm' hbound => .pure fun l hl => ?_
      exact List.forall_mem_cons.2 ⟨hv.mono (hm'.trans hl), fun e he => (hbound e he).mono hl⟩
    | _ => exact .fail _

theorem numbers_evalLet (forms : List Form) : Numbers Value.Made n (evalLet ev scope forms) := by
  unfold evalLet
  split
  · exact .fail _
  · refine .ite (.fail _) (.bind (numbers_evalBindings hev hscope _) fun m bound hm hbound => ?_)
    exact numbers_evalBody hev ((hscope.mono hm).layer hbound) Value.made_nil _
  · exact .fail _

theorem numbers_callSpecial (operands : List Form) (special : SpecialForm) :
    Numbers Value.Made n (callSpecial ev scope operands special) := by
  cases special with
  | eval =>
    simp only [callSpecial]
    split
    · exact hev n scope _ hscope
    · exact .fail _
  | define => exact numbers_evalDefine hev operands
  | lambda => exact numbers_evalLambda operands
  | defineFunction => exact numbers_evalDefineFunction operands
  | isDefined => exact numbers_evalIsDefined scope operands
  | cond => exact numbers_evalIf hev hscope operands
  | case => exact numbers_evalCase hev hscope operands
  | binding => exact numbers_evalLet hev hscope operands
  | and => exact numbers_evalAnd hev hscope operands
  | or => exact numbers_evalOr hev hscope operands

theorem numbers_evalCall (access : Access) (items : List Form) :
    Numbers Value.Made n (evalCall access ev scope items) := by
  cases items with
  | nil => exact .scalar fun _ => .nil
  | cons head operands =>
    refine .bind (hev n scope head hscope) fun m v hm _ => ?_
    have hargs := numbers_evalAll hev (hscope.mono hm) operands
    split
    · exact numbers_callSpecial hev (hscope.mono hm) operands _
    · exact hargs.bind fun m' args hm' hargs =>
        numbers_applyFunction hev access (hscope.mono (hm.trans hm')) hargs _
    · exact hargs.bind fun _ _ _ _ => .fail _

/-- One form, whatever the evaluation of the forms inside it makes. -/
theorem numbers_step (access : Access) (form : Form) :
    Numbers Value.Made n (step access ev scope form) := by
  have hlist {m : Nat} {vs : List Value} (hvs : Values.Made m vs) :
      Numbers Value.Made m (Pure.pure (.list vs)) :=
    .pure fun _ hle => Value.made_list.2 (hvs.mono hle)
  cases form with
  | atom a => exact .scalar fun _ => .ofAtom a
  | symbol x => exact numbers_evalSymbol hscope x
  | call items l => exact numbers_evalCall hev hscope access items
  | quoted items l | vector items =>
    exact .bind (numbers_evalAll hev hscope items) fun _ _ _ hvs => hlist hvs
  | table entries =>
    refine .bind (numbers_evalEntries hev hscope ?_ entries) fun _ _ _ ht => numbers_makeTable ht
    rintro e ⟨⟩

end Evaluation

theorem numbers_framed (form : Form) {x : Eval Value} (h : Numbers Value.Made n x) :
    Numbers Value.Made n (framed form x) := by
  intro s hs hnum
  have hx := h (s.enter form) (by rwa [s.fresh_enter]) (hnum.enter form)
  rw [s.fresh_enter] at hx
  unfold framed
  generalize x (s.enter form) = r at hx
  cases hx with
  | @ok a t hn ht ha =>
    refine .ok ?_ (ht.leave form) ?_ <;> rw [t.fresh_leave]
    · exact hn
    · exact ha
  | @error e t hn ht =>
    refine .error ?_ (ht.leave form)
    rwa [t.fresh_leave]

end Eval

/-- By induction on how many more forms may be open. -/
theorem evaluate_numbers (access : Access) (room : Nat) :
    Evaluator.Numbers (evaluate access room) := by
  induction room with
  | zero => exact fun _ _ _ _ _ _ hnum => .error le_rfl hnum
  | succ room ih =>
    exact fun n scope form hscope =>
      Eval.numbers_framed form (Eval.numbers_step ih hscope access form)

namespace Config

theorem evaluate_numbers (config : Config) : Evaluator.Numbers config.evaluate :=
  fun n scope form hscope s => Lisplet.evaluate_numbers config.access _ n scope form hscope s

/-- An evaluation only ever counts on, and what it leaves has been made. -/
theorem evaluate_numbered (config : Config) {scope : Bindings} (form : Form) {s : Session}
    (h : s.Numbered scope) :
    Outcome.Numbers Value.Made s.fresh (config.evaluate scope form s) ∧
      (Outcome.session (config.evaluate scope form s)).Numbered scope := by
  have hrun := config.evaluate_numbers s.fresh scope form h.scope s le_rfl h.ofSession
  obtain ⟨hle, hnum⟩ := hrun.session
  exact ⟨hrun, hnum.heap, hnum.globals, Bindings.Made.mono hle h.scope⟩

theorem runSource_numbered (config : Config) (file source : String) (s : Session)
    (h : s.Numbered .empty) :
    (Outcome.session (config.runSource file source s)).Numbered .empty := by
  unfold runSource
  cases parse file source with
  | error e => exact h
  | ok forms =>
    exact (Eval.numbers_evalBody config.evaluate_numbers h.scope Value.made_nil forms s
      le_rfl h).session.2

/-- The functions of every session that programs lead to have been made in it. -/
theorem runAll_numbered {config : Config} {s : Session} (h : config.start = .ok s)
    (sources : List (String × String)) : (config.runAll sources s).Numbered .empty := by
  have hbare : Session.Numbered
      { Session.initial with globals := Bindings.empty.layer builtins } .empty := by
    have hempty : Bindings.empty.Made 0 := by rintro x v ⟨⟩
    refine ⟨fun id e he => ?_, hempty.layer fun e he => ?_, hempty⟩
    · cases he
    · simp only [builtins, List.mem_append, List.mem_map, List.mem_singleton] at he
      rcases he with (⟨_, -, rfl⟩ | ⟨_, -, rfl⟩) | rfl <;> exact Value.made_function.2 trivial
  exact runAll_induct config.runSource_numbered sources
    (start_induct hbare config.runSource_numbered h)

end Config

end Lisplet
