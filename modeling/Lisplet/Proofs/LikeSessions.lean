import Lisplet.Proofs.LikeCalls

/-!
Likeness of scopes, sessions and failures. Scopes and globals are alike if they bind like values to
the names of the likeness, whatever else they bind. Like sessions stay alike in everything a run
does on its own: opening and closing like forms, numbering a function, binding a name to like
values, and like effects.
-/

namespace Lisplet

variable {k : Likeness}

theorem isSome_eq_of_rel {α β : Type} {R : α → β → Prop} {a : Option α} {b : Option β}
    (h : Option.Rel R a b) : a.isSome = b.isSome := by
  cases h <;> rfl

structure Bindings.Like (k : Likeness) (a b : Bindings) : Prop where
  get? {x : String} (hx : k.name x) : Option.Rel (Value.Like k) (a.get? x) (b.get? x)
  size (hp : k.probe .locals) : a.size = b.size

/-- The same name, bound to like values. -/
def Bound.Like (k : Likeness) (e e' : String × Value) : Prop := e.1 = e'.1 ∧ e.2.Like k e'.2

namespace Bindings

theorem length_replace (name : String) (value : Value) (entries : List (String × Value)) :
    (replace name value entries).length = entries.length := by
  induction entries with
  | nil => rfl
  | cons e rest ih =>
    simp only [replace]
    split
    · rfl
    · exact congrArg (· + 1) ih

theorem size_insert (b : Bindings) (name : String) (value : Value) :
    (b.insert name value).size = if b.contains name then b.size else b.size + 1 := by
  unfold insert size
  split
  · exact length_replace name value b.entries
  · rfl

theorem like_self {b : Bindings} (h : ∀ x v, k.name x → b.get? x = some v → v.Like k v) :
    b.Like k b := by
  refine ⟨fun {x} hx => ?_, fun _ => rfl⟩
  cases hv : b.get? x with
  | none => exact .none
  | some v => exact .some (h x v hx hv)

/-- What a name is bound to is like itself if the bindings are. -/
theorem Like.value {b : Bindings} (h : b.Like k b) {x : String} (hx : k.name x) {v : Value}
    (hv : b.get? x = some v) : v.Like k v := by
  have hget := h.get? hx
  rw [hv] at hget
  cases hget with
  | some hvalue => exact hvalue

namespace Like

variable {a b : Bindings} (h : a.Like k b)

include h

theorem contains {x : String} (hx : k.name x) : a.contains x = b.contains x := by
  rw [contains_eq, contains_eq]
  exact isSome_eq_of_rel (h.get? hx)

theorem insert (x : String) {v w : Value} (hv : v.Like k w) :
    (a.insert x v).Like k (b.insert x w) where
  get? hy := by
    rw [get?_insert, get?_insert]
    split
    · exact .some hv
    · exact h.get? hy
  size hp := by
    rw [size_insert, size_insert, h.contains (k.name_all hp x), h.size hp]

theorem layer {bound bound' : List (String × Value)}
    (hb : List.Forall₂ (Bound.Like k) bound bound') :
    (a.layer bound).Like k (b.layer bound') := by
  induction hb generalizing a b with
  | nil => exact h
  | @cons e e' _ _ he _ ih =>
    obtain ⟨x, v⟩ := e
    obtain ⟨y, w⟩ := e'
    obtain ⟨rfl, hv⟩ := he
    exact ih (h.insert x hv)

end Like

end Bindings

/-- Calls that were opened earlier may be of any names. -/
structure OpenCall.Like (k : Likeness) (c c' : OpenCall) : Prop where
  items : List.Forall₂ (Form.Like k.anyName) c.items c'.items
  location : k.place c.location c'.location

theorem OpenCall.like_self (hplace : ∀ l, k.place l l) (c : OpenCall) : c.Like k c := by
  refine ⟨List.forall₂_same.2 fun f _ => ?_, hplace c.location⟩
  exact f.like_self (k := k.anyName) hplace fun _ _ => trivial

theorem OpenCall.Like.traceLines {calls calls' : List OpenCall}
    (h : List.Forall₂ (OpenCall.Like k) calls calls') (hp : k.probe .trace) :
    traceLines calls = traceLines calls' := by
  have hline {c c' : OpenCall} (hc : c.Like k c') : c.line? = c'.line? := by
    have hitems := hc.items
    unfold OpenCall.line?
    rw [k.place_eq hp hc.location]
    generalize c.items = items, c'.items = items' at hitems
    cases hitems with
    | nil => rfl
    | cons hf _ => simp only [List.head?_cons, Option.map_some, hf.render]
  unfold Lisplet.traceLines
  induction h with
  | nil => rfl
  | cons hc _ ih => simp only [List.filterMap_cons, hline hc, ih]

/-- The functions that the sessions make from now on have numbers that stand for one another. -/
structure Session.Like (k : Likeness) (s t : Session) : Prop where
  globals : s.globals.Like k t.globals
  heap : s.heap.Like k t.heap
  fresh (n : Nat) : k.number (s.fresh + n) (t.fresh + n)
  depth : s.depth = t.depth
  calls : List.Forall₂ (OpenCall.Like k) s.calls t.calls
  devices : s.devices = t.devices

namespace Session.Like

variable {s t : Session} (h : s.Like k t)

include h

theorem enter {f g : Form} (hf : f.Like k g) : (s.enter f).Like k (t.enter g) := by
  have hdepth := congrArg (· + 1) h.depth
  cases hf with
  | call hl hitems =>
    have hopen := hitems.imp fun _ _ => Form.Like.anyName
    exact ⟨h.globals, h.heap, h.fresh, hdepth, .cons ⟨hopen, hl⟩ h.calls, h.devices⟩
  | _ => exact ⟨h.globals, h.heap, h.fresh, hdepth, h.calls, h.devices⟩

theorem leave {f g : Form} (hf : f.Like k g) : (s.leave f).Like k (t.leave g) := by
  have hdepth := congrArg (· - 1) h.depth
  cases hf with
  | call hl hitems =>
    refine ⟨h.globals, h.heap, h.fresh, hdepth, ?_, h.devices⟩
    change List.Forall₂ (OpenCall.Like k) s.calls.tail t.calls.tail
    simpa only [List.drop_one] using List.forall₂_drop 1 h.calls
  | _ => exact ⟨h.globals, h.heap, h.fresh, hdepth, h.calls, h.devices⟩

theorem nextNumber :
    Session.Like k { s with fresh := s.fresh + 1 } { t with fresh := t.fresh + 1 } := by
  refine ⟨h.globals, h.heap, fun n => ?_, h.depth, h.calls, h.devices⟩
  simpa only [Nat.add_right_comm _ 1 n, Nat.add_assoc] using h.fresh (n + 1)

theorem define (x : String) {v w : Value} (hv : v.Like k w) :
    Session.Like k { s with globals := s.globals.insert x v }
      { t with globals := t.globals.insert x w } :=
  ⟨h.globals.insert x hv, h.heap, h.fresh, h.depth, h.calls, h.devices⟩

theorem after {e e' : Effect} (he : e.Like k e') : (e.after s).Like k (e'.after t) := by
  have hheap := he.heap h.heap
  cases he with
  | write channel line =>
    obtain ⟨_, _, hs⟩ := s.hand_eq channel line
    obtain ⟨_, _, ht⟩ := t.hand_eq channel line
    rw [Effect.after, Effect.after, hs, ht]
    exact ⟨h.globals, h.heap, h.fresh, h.depth, h.calls, by rw [h.devices]⟩
  | _ => exact ⟨h.globals, hheap, h.fresh, h.depth, h.calls, h.devices⟩

theorem failure? {e e' : Effect} (he : e.Like k e') : e.failure? s = e'.failure? t := by
  cases he with
  | write channel line => simp only [Effect.failure?, h.devices]
  | _ => rfl

end Session.Like

theorem Bindings.like_same (b : Bindings) : b.Like .same b :=
  Bindings.like_self fun _ v _ _ => v.like_same

theorem Session.like_same (s : Session) : s.Like .same s where
  globals := s.globals.like_same
  heap := Heap.like_of (P := fun _ => True) (fun _ => Value.like_same _)
    (fun _ _ _ => ⟨trivial, trivial⟩) (fun _ => .inl trivial) fun _ => trivial
  fresh _ := rfl
  depth := rfl
  calls := List.forall₂_same.2 fun c _ => c.like_self fun _ => rfl
  devices := rfl

inductive Misshape.Like (k : Likeness) : Misshape → Misshape → Prop
  | refl (m : Misshape) : Like k m m
  | notSymbol {f g : Form} (h : f.Like k g) : Like k (.notSymbol f) (.notSymbol g)
  | variantNotList {f g : Form} (h : f.Like k g) : Like k (.variantNotList f) (.variantNotList g)
  | variantWithoutParams {f g : Form} (h : f.Like k g) :
      Like k (.variantWithoutParams f) (.variantWithoutParams g)
  | paramNotSymbol {f g : Form} (h : f.Like k g) : Like k (.paramNotSymbol f) (.paramNotSymbol g)
  | bindingNotSymbol {f g : Form} (h : f.Like k g) :
      Like k (.bindingNotSymbol f) (.bindingNotSymbol g)

inductive Cause.Like (k : Likeness) : Cause → Cause → Prop
  | refl (c : Cause) : Like k c c
  | misshapen (special : SpecialForm) {m m' : Misshape} (h : m.Like k m') :
      Like k (.misshapen special m) (.misshapen special m')

theorem Cause.Like.isFatal {c c' : Cause} (h : c.Like k c') : c.isFatal = c'.isFatal := by
  cases h <;> rfl

structure Failure.Like (k : Likeness) (e e' : Failure) : Prop where
  cause : e.cause.Like k e'.cause
  trace : Option.Rel (List.Forall₂ (OpenCall.Like k)) e.trace e'.trace

namespace Failure.Like

theorem ofCause {c c' : Cause} (h : c.Like k c') : (Failure.ofCause c).Like k (.ofCause c') :=
  ⟨h, .none⟩

theorem annotate {e e' : Failure} (h : e.Like k e') {calls calls' : List OpenCall}
    (hc : List.Forall₂ (OpenCall.Like k) calls calls') :
    (e.annotate calls).Like k (e'.annotate calls') := by
  unfold Failure.annotate
  rw [isSome_eq_of_rel h.trace, h.cause.isFatal]
  split
  · exact h
  · exact ⟨h.cause, .some hc⟩

end Failure.Like

/-! Failures that may not differ in locations do not differ. -/

section Places

variable (hp : ∀ {l l'}, k.place l l' → l = l')

include hp

theorem OpenCall.Like.eq {c c' : OpenCall} (h : c.Like k c') : c = c' := by
  obtain ⟨items, l⟩ := c
  obtain ⟨items', l'⟩ := c'
  obtain rfl : items = items' := eq_of_forall₂ h.items fun _ _ hf => hf.eq (k := k.anyName) hp
  obtain rfl : l = l' := hp h.location
  rfl

theorem Cause.Like.eq {c c' : Cause} (h : c.Like k c') : c = c' := by
  cases h with
  | refl c => rfl
  | misshapen special hm =>
    cases hm with
    | refl m => rfl
    | notSymbol hf | variantNotList hf | variantWithoutParams hf | paramNotSymbol hf
    | bindingNotSymbol hf => rw [hf.eq hp]

theorem Failure.Like.eq {e e' : Failure} (h : e.Like k e') : e = e' := by
  obtain ⟨cause, trace⟩ := e
  obtain ⟨cause', trace'⟩ := e'
  obtain rfl : cause = cause' := h.cause.eq hp
  have htrace : Option.Rel (List.Forall₂ (OpenCall.Like k)) trace trace' := h.trace
  cases htrace with
  | none => rfl
  | some hc => rw [eq_of_forall₂ hc fun _ _ hcall => hcall.eq hp]

end Places

end Lisplet
