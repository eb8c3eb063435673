import Lisplet.Proofs.Makeup

/-!
The course of an evaluation. Whatever form is evaluated, `Eval.step` does one of three things from
any session: it ends with a value, it fails with a cause of its own, or it has a form evaluated and
goes on with the value, while a failure of that form is its own failure. In between it never touches
the depth or the open calls. `Course` says this once, and what is proved of frames and traces
follows by induction on it.
-/

namespace Lisplet

abbrev Outcome (α : Type) := EStateM.Result Failure Session α

namespace Outcome

variable {α β γ : Type}

/-- The session in which a value or a failure leaves things. -/
def session : Outcome α → Session
  | .ok _ s | .error _ s => s

def andThen (r : Outcome α) (f : α → Session → Outcome β) : Outcome β :=
  match r with
  | .ok a s => f a s
  | .error e s => .error e s

@[simp] theorem andThen_ok (a : α) (s : Session) (f : α → Session → Outcome β) :
    andThen (.ok a s) f = f a s := rfl

@[simp] theorem andThen_error (e : Failure) (s : Session) (f : α → Session → Outcome β) :
    andThen (.error e s) f = .error e s := rfl

theorem andThen_assoc (r : Outcome α) (f : α → Session → Outcome β)
    (g : β → Session → Outcome γ) :
    andThen (andThen r f) g = andThen r fun a s => andThen (f a s) g := by
  cases r <;> rfl

theorem andThen_ok_right (r : Outcome α) : andThen r .ok = r := by
  cases r <;> rfl

theorem bind_apply (x : Eval α) (f : α → Eval β) (s : Session) :
    (x >>= f) s = andThen (x s) f := by
  change EStateM.bind x f s = _
  unfold EStateM.bind
  cases x s <;> rfl

theorem bind_of_ok {x : Eval α} {s t : Session} {a : α} (h : x s = .ok a t) (f : α → Eval β) :
    (x >>= f) s = f a t := by
  rw [bind_apply, h]
  rfl

theorem bind_of_error {x : Eval α} {s t : Session} {e : Failure} (h : x s = .error e t)
    (f : α → Eval β) : (x >>= f) s = .error e t := by
  rw [bind_apply, h]
  rfl

theorem bind_eq_ok {x : Eval α} {f : α → Eval β} {s u : Session} {b : β}
    (h : (x >>= f) s = .ok b u) : ∃ a t, x s = .ok a t ∧ f a t = .ok b u := by
  rw [bind_apply] at h
  rcases hx : x s with ⟨a, t⟩ | ⟨e, t⟩ <;> rw [hx] at h
  · exact ⟨a, t, rfl, h⟩
  · cases h

end Outcome

/-- The same forms are open. -/
structure Session.SameFrames (s t : Session) : Prop where
  depth : t.depth = s.depth
  calls : t.calls = s.calls

namespace Session.SameFrames

theorem refl (s : Session) : s.SameFrames s := ⟨rfl, rfl⟩

theorem trans {s t u : Session} (h : s.SameFrames t) (k : t.SameFrames u) : s.SameFrames u :=
  ⟨k.depth.trans h.depth, k.calls.trans h.calls⟩

end Session.SameFrames

/-- What becomes of a session, as a function of how single forms are evaluated. -/
inductive Course {α : Type} : Session → (Evaluator → Outcome α) → Prop
  | ends {s t : Session} (h : s.SameFrames t) (a : α) : Course s fun _ => .ok a t
  | fails {s t : Session} (h : s.SameFrames t) (cause : Cause) :
      Course s fun _ => .error (.ofCause cause) t
  | asks {s t : Session} (h : s.SameFrames t) (scope : Bindings) (form : Form)
      (next : Value → Session → Evaluator → Outcome α) (hn : ∀ v u, Course u (next v u)) :
      Course s fun ev => Outcome.andThen (ev scope form t) fun v u => next v u ev

theorem Course.of_sameFrames {α : Type} {s t : Session} {x : Evaluator → Outcome α}
    (h : s.SameFrames t) (hx : Course t x) : Course s x := by
  cases hx with
  | ends k a => exact .ends (h.trans k) a
  | fails k cause => exact .fails (h.trans k) cause
  | asks k scope form next hn => exact .asks (h.trans k) scope form next hn

theorem Course.andThen {α β : Type} {s : Session} {x : Evaluator → Outcome α}
    {f : α → Session → Evaluator → Outcome β} (hx : Course s x) (hf : ∀ a t, Course t (f a t)) :
    Course s fun ev => Outcome.andThen (x ev) fun a t => f a t ev := by
  induction hx with
  | ends h a => exact (hf a _).of_sameFrames h
  | fails h cause => exact .fails h cause
  | asks h scope form next _ ih =>
    simp only [Outcome.andThen_assoc]
    exact .asks h scope form _ ih

/-- Computations that follow a course from every session. -/
def Eval.Follows {α : Type} (x : Evaluator → Eval α) : Prop := ∀ s, Course s fun ev => x ev s

namespace Eval

namespace Follows

variable {α β : Type}

theorem pure (a : α) : Follows fun _ => (Pure.pure a : Eval α) := fun s => .ends (.refl s) a

theorem fail (cause : Cause) : Follows fun _ => (Eval.fail cause : Eval α) :=
  fun s => .fails (.refl s) cause

theorem modifyGet {f : Session → α × Session} (h : ∀ s : Session, s.SameFrames (f s).2) :
    Follows fun _ => (MonadState.modifyGet f : Eval α) :=
  fun s => .ends (h s) (f s).1

theorem ask (scope : Bindings) (form : Form) : Follows fun ev => ev scope form := by
  intro s
  have h := Course.asks (.refl s) scope form (fun v u _ => .ok v u) fun v u => .ends (.refl u) v
  simpa only [Outcome.andThen_ok_right] using h

theorem bind {x : Evaluator → Eval α} {f : α → Evaluator → Eval β} (hx : Follows x)
    (hf : ∀ a, Follows (f a)) : Follows fun ev => x ev >>= fun a => f a ev := by
  intro s
  simp only [Outcome.bind_apply]
  exact (hx s).andThen fun a t => hf a t

end Follows

theorem Made.follows {α : Type} {x : Evaluator → Eval α} (h : Made x) : Follows x := by
  induction h with
  | pure a => exact .pure a
  | fail cause => exact .fail cause
  | act hf => exact .modifyGet fun s => ⟨hf.depth s, hf.calls s⟩
  | lines => exact .modifyGet fun s => .refl s
  | ask scope form => exact .ask scope form
  | bind _ _ hx hf => exact hx.bind hf

theorem follows_evalAll (scope : Bindings) (forms : List Form) :
    Follows fun ev => evalAll ev scope forms := (made_evalAll scope forms).follows

theorem follows_evalBody (scope : Bindings) (last : Value) (forms : List Form) :
    Follows fun ev => evalBody ev scope last forms := (made_evalBody scope last forms).follows

theorem follows_callVariants (scope : Bindings) (name : Option String) (args : List Value)
    (variants : List Variant) : Follows fun ev => callVariants ev scope name args variants :=
  (made_callVariants scope name args variants).follows

theorem follows_callSpecial (scope : Bindings) (operands : List Form) (special : SpecialForm) :
    Follows fun ev => callSpecial ev scope operands special :=
  (made_callSpecial scope operands special).follows

/-- Every form is evaluated along a course. -/
theorem follows_step (access : Access) (scope : Bindings) (form : Form) :
    Follows fun ev => step access ev scope form := (made_step access scope form).follows

end Eval

end Lisplet
