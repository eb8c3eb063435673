import Lisplet.Proofs.Courses
import Mathlib.Logic.Relation

/-!
Frames. However the evaluation of a form ends, it leaves the depth and the open calls as it found
them. So the room that `evaluate` counts down is always what the limit leaves over the depth, and
every evaluation inside another either runs as a frame within the limit or is refused exactly at it.
-/

namespace Lisplet

/-- Failures keep the frames as well as values do. -/
def Evaluator.KeepsFrames (ev : Evaluator) : Prop :=
  ∀ scope form (s : Session), s.SameFrames (Outcome.session (ev scope form s))

namespace Course

variable {α : Type} {s : Session} {x : Evaluator → Outcome α}

theorem sameFrames (hx : Course s x) {ev : Evaluator} (hev : ev.KeepsFrames) :
    s.SameFrames (x ev).session := by
  induction hx with
  | ends h a => exact h
  | fails h cause => exact h
  | @asks s t h scope form next _ ih =>
    have hk := hev scope form t
    cases hr : ev scope form t with
    | error e u =>
      rw [hr] at hk
      simp only [hr, Outcome.andThen_error]
      exact h.trans hk
    | ok v u =>
      rw [hr] at hk
      simp only [hr, Outcome.andThen_ok]
      exact h.trans (hk.trans (ih v u))

/-- Evaluators that agree wherever the frames are those at the start lead to the same end. -/
theorem congr (hx : Course s x) {ev ev' : Evaluator} (hev : ev.KeepsFrames)
    (h : ∀ scope form t, s.SameFrames t → ev scope form t = ev' scope form t) : x ev = x ev' := by
  induction hx with
  | ends _ a => rfl
  | fails _ cause => rfl
  | @asks s t hst scope form next _ ih =>
    have hk := hev scope form t
    simp only [← h scope form t hst]
    cases hr : ev scope form t with
    | error e u => rfl
    | ok v u =>
      rw [hr] at hk
      exact ih v u fun scope form w hw => h scope form w (hst.trans (hk.trans hw))

end Course

theorem Session.leave_enter_sameFrames {s t : Session} {form : Form}
    (h : (s.enter form).SameFrames t) : s.SameFrames (t.leave form) := by
  obtain ⟨hd, hc⟩ := h
  cases form with
  | call items l => exact ⟨by simp_all [enter, leave], by simp_all [enter, leave]⟩
  | _ => exact ⟨by simp_all [enter, leave], by simp_all [enter, leave]⟩

theorem Eval.framed_sameFrames {form : Form} {act : Eval Value} {s : Session}
    (h : (s.enter form).SameFrames (Outcome.session (act (s.enter form)))) :
    s.SameFrames (Outcome.session (framed form act s)) := by
  unfold framed
  cases hr : act (s.enter form) with
  | ok v t => rw [hr] at h; exact Session.leave_enter_sameFrames h
  | error e t => rw [hr] at h; exact Session.leave_enter_sameFrames h

theorem evaluate_keepsFrames (access : Access) (room : Nat) :
    (evaluate access room).KeepsFrames := by
  induction room with
  | zero => exact fun _ _ s => .refl s
  | succ room ih =>
    intro scope form s
    exact Eval.framed_sameFrames ((Eval.follows_step access scope form _).sameFrames ih)

namespace Config

theorem evaluate_keepsFrames (config : Config) : config.evaluate.KeepsFrames :=
  fun scope form s => Lisplet.evaluate_keepsFrames _ _ scope form s

/-- A form runs as a frame in which the forms inside are evaluated under the same limit. -/
theorem evaluate_of_lt (config : Config) (scope : Bindings) (form : Form) {s : Session}
    (h : s.depth < config.maxDepth) :
    config.evaluate scope form s =
      Eval.framed form (Eval.step config.access config.evaluate scope form) s := by
  obtain ⟨room, hroom⟩ : ∃ room, config.maxDepth - s.depth = room + 1 :=
    ⟨config.maxDepth - s.depth - 1, by omega⟩
  have hstep : Eval.step config.access (Lisplet.evaluate config.access room) scope form
      (s.enter form) = Eval.step config.access config.evaluate scope form (s.enter form) := by
    apply (Eval.follows_step config.access scope form _).congr
      (Lisplet.evaluate_keepsFrames config.access room)
    intro scope' form' t ht
    have hd : t.depth = s.depth + 1 := by
      rw [ht.depth]
      cases form <;> rfl
    unfold Config.evaluate
    rw [show config.maxDepth - t.depth = room by omega]
  unfold Config.evaluate at hstep ⊢
  simp only [hroom, Lisplet.evaluate, Eval.framed]
  rw [hstep]

/-- At the limit a form is refused, and nothing has changed. -/
theorem evaluate_of_le (config : Config) (scope : Bindings) (form : Form) {s : Session}
    (h : config.maxDepth ≤ s.depth) :
    config.evaluate scope form s = .error (.ofCause (.overflow s.depth)) s := by
  unfold Config.evaluate
  rw [Nat.sub_eq_zero_of_le h]
  rfl

end Config

/-- An evaluation of a form, by where it starts. -/
structure Visit where
  scope : Bindings
  form : Form
  session : Session

/-- The session while the form is open. -/
def Visit.inside (w : Visit) : Session := w.session.enter w.form

theorem Visit.inside_depth (w : Visit) : w.inside.depth = w.session.depth + 1 := by
  unfold inside
  cases w.form <;> rfl

theorem Visit.inside_calls_length (w : Visit) :
    w.inside.calls.length ≤ w.session.calls.length + 1 := by
  unfold inside
  cases w.form <;> simp [Session.enter]

open Classical in
/-- The evaluator with another answer for one visit. -/
noncomputable def Evaluator.answering (ev : Evaluator) (w : Visit) (r : Outcome Value) :
    Evaluator := fun scope form s => if Visit.mk scope form s = w then r else ev scope form s

/-- What happens hangs on a visit: it is different if the answer there is. -/
def Visit.Decides {α : Type} (w : Visit) (x : Evaluator → Outcome α) (ev : Evaluator) : Prop :=
  ∃ r, x (ev.answering w r) ≠ x ev

theorem Evaluator.answering_self (ev : Evaluator) (w : Visit) :
    ev.answering w (ev w.scope w.form w.session) = ev := by
  funext scope form s
  unfold answering
  split
  · rename_i h
    rw [← h]
  · rfl

namespace Course

variable {α : Type} {s : Session} {x : Evaluator → Outcome α} {ev : Evaluator} {w : Visit}

/-- The visits that matter are those that are made, and a failure there is the outcome. -/
theorem eq_error_of_decides (hx : Course s x) (hw : w.Decides x ev) (e : Failure) (t : Session) :
    x (ev.answering w (.error e t)) = .error e t := by
  obtain ⟨r, hr⟩ := hw
  induction hx with
  | ends _ a => exact absurd rfl hr
  | fails _ cause => exact absurd rfl hr
  | @asks s u h scope form next _ ih =>
    by_cases heq : Visit.mk scope form u = w
    · simp [Evaluator.answering, heq]
    · simp only [Evaluator.answering, heq, if_false] at hr ⊢
      cases hev : ev scope form u with
      | error e' u' => simp [hev] at hr
      | ok v u' =>
        simp only [hev, Outcome.andThen_ok] at hr ⊢
        exact ih v u' hr

theorem sameFrames_of_decides (hx : Course s x) (hev : ev.KeepsFrames) (hw : w.Decides x ev) :
    s.SameFrames w.session := by
  obtain ⟨r, hr⟩ := hw
  induction hx with
  | ends _ a => exact absurd rfl hr
  | fails _ cause => exact absurd rfl hr
  | @asks s u h scope form next _ ih =>
    by_cases heq : Visit.mk scope form u = w
    · rw [← heq]
      exact h
    · simp only [Evaluator.answering, heq, if_false] at hr
      have hk := hev scope form u
      cases hu : ev scope form u with
      | error e' u' => simp [hu] at hr
      | ok v u' =>
        simp only [hu, Outcome.andThen_ok] at hr
        rw [hu] at hk
        exact h.trans (hk.trans (ih v u' hr))

end Course

/-- What happens while the form is open. -/
def Visit.body (access : Access) (w : Visit) (ev : Evaluator) : Outcome Value :=
  Eval.step access ev w.scope w.form w.inside

theorem Visit.body_course (access : Access) (w : Visit) : Course w.inside (w.body access) :=
  Eval.follows_step access w.scope w.form w.inside

namespace Config

def run (config : Config) (w : Visit) : Outcome Value :=
  config.evaluate w.scope w.form w.session

/-- Evaluating one form has another evaluated directly inside. -/
def TurnsTo (config : Config) (v w : Visit) : Prop :=
  v.session.depth < config.maxDepth ∧ w.Decides (v.body config.access) config.evaluate

/-- Evaluating one form has another evaluated, at any number of levels inside. -/
def Reaches (config : Config) : Visit → Visit → Prop := Relation.ReflTransGen config.TurnsTo

theorem TurnsTo.sameFrames {config : Config} {v w : Visit} (h : config.TurnsTo v w) :
    v.inside.SameFrames w.session :=
  (v.body_course config.access).sameFrames_of_decides config.evaluate_keepsFrames h.2

theorem Reaches.depth_le {config : Config} {v w : Visit} (h : config.Reaches v w)
    (hv : v.session.depth ≤ config.maxDepth) : w.session.depth ≤ config.maxDepth := by
  induction h with
  | refl => exact hv
  | @tail u w _ hw _ =>
    have hd := hw.sameFrames.depth
    rw [u.inside_depth] at hd
    have hlt := hw.1
    omega

theorem Reaches.calls_le {config : Config} {v w : Visit} (h : config.Reaches v w)
    (hv : v.session.calls.length ≤ v.session.depth) :
    w.session.calls.length ≤ w.session.depth := by
  induction h with
  | refl => exact hv
  | @tail u w _ hw ih =>
    rw [hw.sameFrames.depth, hw.sameFrames.calls, u.inside_depth]
    have hc := u.inside_calls_length
    omega

/-- A visit runs as a frame within the limit. -/
structure Enters (config : Config) (w : Visit) : Prop where
  run_eq : config.run w =
    Eval.framed w.form (Eval.step config.access config.evaluate w.scope w.form) w.session
  one_le : 1 ≤ w.inside.depth
  depth_le : w.inside.depth ≤ config.maxDepth

/-- A visit is refused at the limit, before anything is opened. -/
structure Refuses (config : Config) (w : Visit) : Prop where
  run_eq : config.run w = .error (.ofCause (.overflow w.session.depth)) w.session
  le_depth : config.maxDepth ≤ w.session.depth

theorem enters_or_refuses (config : Config) (w : Visit) : config.Enters w ∨ config.Refuses w := by
  have hin := w.inside_depth
  rcases Nat.lt_or_ge w.session.depth config.maxDepth with hlt | hge
  · exact .inl ⟨config.evaluate_of_lt w.scope w.form hlt, by omega, by omega⟩
  · exact .inr ⟨config.evaluate_of_le w.scope w.form hge, hge⟩

theorem runForms_sameFrames (config : Config) (forms : List Form) (s : Session) :
    s.SameFrames (Outcome.session (config.runForms forms s)) :=
  (Eval.follows_evalBody .empty .nil forms s).sameFrames config.evaluate_keepsFrames

theorem runSource_sameFrames (config : Config) (file source : String) (s : Session) :
    s.SameFrames (Outcome.session (config.runSource file source s)) := by
  unfold runSource
  cases parse file source with
  | ok forms => exact config.runForms_sameFrames forms s
  | error e => exact .refl s

/-- The session after source texts have been run one after another, whether they failed or not. -/
def runAll (config : Config) (sources : List (String × String)) (s : Session) : Session :=
  sources.foldl (fun s source => Outcome.session (config.runSource source.1 source.2 s)) s

/-- What holds before the prelude and is kept by every source text holds of the session that
programs start in. -/
theorem start_induct {config : Config} {P : Session → Prop}
    (hbare : P { Session.initial with globals := Bindings.empty.layer builtins })
    (hrun : ∀ file source s, P s → P (Outcome.session (config.runSource file source s)))
    {s : Session} (h : config.start = .ok s) : P s := by
  unfold start at h
  dsimp only at h
  split at h
  · split at h
    · rename_i v t hp
      cases h
      have hprelude := hrun Prelude.file Prelude.source _ hbare
      change config.runSource Prelude.file Prelude.source _ = .ok v s at hp
      rw [hp] at hprelude
      exact hprelude
    · cases h
  · cases h
    exact hbare

theorem runAll_induct {config : Config} {P : Session → Prop}
    (hrun : ∀ file source s, P s → P (Outcome.session (config.runSource file source s)))
    (sources : List (String × String)) {s : Session} (h : P s) : P (config.runAll sources s) := by
  induction sources generalizing s with
  | nil => exact h
  | cons source sources ih => exact ih (hrun source.1 source.2 s h)

theorem runAll_sameFrames (config : Config) (sources : List (String × String)) (s : Session) :
    s.SameFrames (config.runAll sources s) :=
  runAll_induct (fun file source _ h => h.trans (config.runSource_sameFrames file source _)) sources
    (.refl s)

theorem start_frames {config : Config} {s : Session} (h : config.start = .ok s) :
    s.depth = 0 ∧ s.calls = [] := by
  refine start_induct (P := fun s => s.depth = 0 ∧ s.calls = []) ⟨rfl, rfl⟩
    (fun file source s hs => ?_) h
  have hsame := config.runSource_sameFrames file source s
  exact ⟨hsame.depth.trans hs.1, hsame.calls.trans hs.2⟩

/-- Every evaluation leaves the depth and the open calls as they were, every evaluation inside it
runs within the limit or is refused at it, with at most as many calls open as forms, and between
programs nothing is open. -/
theorem frames_balanced (config : Config) :
    (∀ v : Visit,
      (config.run v).session.depth = v.session.depth ∧
      (config.run v).session.calls = v.session.calls ∧
      ∀ w, config.Reaches v w →
        (config.Enters w ∨ config.Refuses w) ∧
        (v.session.depth ≤ config.maxDepth → w.session.depth ≤ config.maxDepth) ∧
        (v.session.calls.length ≤ v.session.depth → w.inside.calls.length ≤ w.inside.depth)) ∧
    (∀ s, config.start = .ok s → ∀ sources,
      (config.runAll sources s).depth = 0 ∧ (config.runAll sources s).calls = []) := by
  refine ⟨fun v => ?_, fun s hs sources => ?_⟩
  · have hv := config.evaluate_keepsFrames v.scope v.form v.session
    refine ⟨hv.depth, hv.calls, fun w hw => ⟨config.enters_or_refuses w, hw.depth_le, fun hc => ?_⟩⟩
    have hwc := hw.calls_le hc
    have hcalls := w.inside_calls_length
    rw [w.inside_depth]
    omega
  · obtain ⟨hd, hc⟩ := start_frames hs
    have ha := config.runAll_sameFrames sources s
    exact ⟨ha.depth.trans hd, ha.calls.trans hc⟩

/-- `[nil]` evaluates `nil` one level down, which a limit of two allows. -/
theorem frames_balanced_vector :
    let config : Config := ⟨2, false, .all⟩
    let v : Visit := ⟨.empty, .vector [.atom .nil], .initial⟩
    let w : Visit := ⟨.empty, .atom .nil, v.inside⟩
    config.Reaches v w ∧ w.inside.calls.length ≤ w.inside.depth ∧
      ∃ s, config.start = .ok s ∧ (config.runAll [("a", "(f"), ("b", "((1))")] s).depth = 0 := by
  intro config v w
  have hbody (ev : Evaluator) : v.body config.access ev =
      Outcome.andThen (ev w.scope w.form w.session) fun a t => .ok (.list [a]) t := by
    change EStateM.bind (EStateM.bind (ev .empty (.atom .nil)) _) _ v.inside = _
    unfold EStateM.bind
    change _ = Outcome.andThen (ev .empty (.atom .nil) v.inside) _
    cases ev .empty (.atom .nil) v.inside <;> rfl
  have hvw : config.Reaches v w := by
    refine Relation.ReflTransGen.single ⟨by decide, .error (.ofCause .restMarker) v.inside, ?_⟩
    have hok : config.evaluate w.scope w.form w.session = .ok .nil v.inside := rfl
    simp only [hbody, hok, Evaluator.answering, if_true, Outcome.andThen_error, Outcome.andThen_ok]
    exact nofun
  exact ⟨hvw, ((frames_balanced config).1 v).2.2 w hvw |>.2.2 (by decide),
    _, rfl, ((frames_balanced config).2 _ rfl _).1⟩

end Config

end Lisplet
