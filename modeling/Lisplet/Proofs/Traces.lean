import Lisplet.Proofs.Frames

/-!
Traces. A failure that comes out of an evaluation has passed through a chain of evaluations inside
one another. The innermost of them gave it the calls that were open there, all others left it as it
was; fatal failures have no trace at all.
-/

namespace Lisplet

/-- Outer evaluations leave the failure as it is. -/
def Failure.Settled (e : Failure) : Prop := e.trace.isSome = true ∨ e.cause.isFatal = true

theorem Failure.Settled.annotate {e : Failure} (h : e.Settled) (calls : List OpenCall) :
    e.annotate calls = e := by
  unfold Failure.annotate
  rcases h with h | h <;> simp [h]

theorem Failure.annotate_settled (e : Failure) (calls : List OpenCall) :
    (e.annotate calls).Settled := by
  unfold Failure.annotate
  split
  · rename_i h
    simpa [Settled] using h
  · exact .inl rfl

theorem Failure.annotate_ofCause (cause : Cause) (calls : List OpenCall) :
    ((ofCause cause).annotate calls).cause = cause ∧
      ((ofCause cause).annotate calls).trace = if cause.isFatal then none else some calls := by
  cases h : cause.isFatal <;> simp [ofCause, annotate, h]

namespace Course

variable {α : Type} {s : Session} {x : Evaluator → Outcome α} {ev : Evaluator}

/-- A failed visit is the failure of the whole. -/
theorem eq_of_decides (hx : Course s x) {w : Visit} (hw : w.Decides x ev) {e : Failure}
    {t : Session} (he : ev w.scope w.form w.session = .error e t) : x ev = .error e t := by
  have h := hx.eq_error_of_decides hw e t
  rwa [← he, ev.answering_self] at h

/-- What fails while no visit does has failed with a cause of its own. -/
theorem exists_cause (hx : Course s x)
    (hv : ∀ w : Visit, w.Decides x ev → ∀ e t, ev w.scope w.form w.session ≠ .error e t)
    {e : Failure} {t : Session} (he : x ev = .error e t) : ∃ cause, e = .ofCause cause := by
  induction hx with
  | ends _ a => cases he
  | fails _ cause =>
    cases he
    exact ⟨cause, rfl⟩
  | @asks s u _ scope form next _ ih =>
    cases hev : ev scope form u with
    | error e' u' =>
      -- any other answer here would show, so the visit is one that decides
      refine absurd hev
        (hv ⟨scope, form, u⟩ ⟨.error e' { u' with depth := u'.depth + 1 }, ?_⟩ e' u')
      simp only [Evaluator.answering, if_true, Outcome.andThen_error, hev]
      intro heq
      injection heq with _ hu
      have hd := congrArg Session.depth hu
      simp at hd
    | ok v u' =>
      simp only [hev, Outcome.andThen_ok] at he
      refine ih v u' (fun w hw e' t' => ?_) he
      by_cases hpoint : Visit.mk scope form u = w
      · subst hpoint
        simp [hev]
      · obtain ⟨r, hr⟩ := hw
        refine hv w ⟨r, ?_⟩ e' t'
        simpa [Evaluator.answering, hpoint, hev] using hr

end Course

namespace Config

variable {config : Config} {v w : Visit} {e : Failure} {t : Session}

theorem run_of_body_ok (h : w.session.depth < config.maxDepth) {a : Value}
    (hb : w.body config.access config.evaluate = .ok a t) :
    config.run w = .ok a (t.leave w.form) := by
  rw [run, config.evaluate_of_lt w.scope w.form h]
  unfold Eval.framed
  rw [show Eval.step config.access config.evaluate w.scope w.form (w.session.enter w.form) = _
    from hb]

theorem run_of_body_error (h : w.session.depth < config.maxDepth)
    (hb : w.body config.access config.evaluate = .error e t) :
    config.run w = .error (e.annotate w.inside.calls) (t.leave w.form) := by
  have hsame := (w.body_course config.access).sameFrames config.evaluate_keepsFrames
  rw [hb] at hsame
  rw [run, config.evaluate_of_lt w.scope w.form h, ← hsame.calls]
  unfold Eval.framed
  rw [show Eval.step config.access config.evaluate w.scope w.form (w.session.enter w.form) = _
    from hb]
  rfl

/-- A failed evaluation was refused, or what it did while its form was open has failed. -/
theorem run_eq_error (h : config.run w = .error e t) :
    e = .ofCause (.overflow w.session.depth) ∨
    (w.session.depth < config.maxDepth ∧ ∃ e₀ t₀,
      w.body config.access config.evaluate = .error e₀ t₀ ∧ e = e₀.annotate w.inside.calls) := by
  rcases Nat.lt_or_ge w.session.depth config.maxDepth with hlt | hge
  · right
    refine ⟨hlt, ?_⟩
    cases hb : w.body config.access config.evaluate with
    | ok a t₀ =>
      rw [run_of_body_ok hlt hb] at h
      cases h
    | error e₀ t₀ =>
      rw [run_of_body_error hlt hb] at h
      cases h
      exact ⟨e₀, t₀, rfl, rfl⟩
  · left
    rw [run, config.evaluate_of_le w.scope w.form hge] at h
    cases h
    rfl

theorem run_settled (h : config.run w = .error e t) : e.Settled := by
  rcases run_eq_error h with rfl | ⟨-, e₀, t₀, -, rfl⟩
  · exact .inr rfl
  · exact e₀.annotate_settled _

theorem TurnsTo.run_eq (h : config.TurnsTo v w) (hw : config.run w = .error e t) :
    config.run v = .error e (t.leave v.form) := by
  have hb := (v.body_course config.access).eq_of_decides h.2 hw
  rw [run_of_body_error h.1 hb, (run_settled hw).annotate]

/-- The failure of an evaluation inside is the failure of the whole. -/
theorem Reaches.run_eq (h : config.Reaches v w) (hw : config.run w = .error e t) :
    ∃ u, config.run v = .error e u := by
  induction h generalizing t with
  | refl => exact ⟨t, hw⟩
  | tail _ hlast ih => exact ih (hlast.run_eq hw)

/-- No evaluation directly inside has failed. -/
def Innermost (config : Config) (w : Visit) : Prop :=
  ∀ u, config.TurnsTo w u → ∀ e t, config.run u ≠ .error e t

theorem Innermost.body_eq (h : config.Innermost w) (hlt : w.session.depth < config.maxDepth)
    (hb : w.body config.access config.evaluate = .error e t) : ∃ cause, e = .ofCause cause :=
  (w.body_course config.access).exists_cause (fun u hu => h u ⟨hlt, hu⟩) hb

/-- The innermost evaluation gives the failure its trace. -/
theorem Innermost.trace_eq (h : config.Innermost w) (hw : config.run w = .error e t) :
    e.trace = if e.cause.isFatal then none else some w.inside.calls := by
  rcases run_eq_error hw with rfl | ⟨hlt, e₀, t₀, hb, rfl⟩
  · rfl
  · obtain ⟨cause, rfl⟩ := h.body_eq hlt hb
    obtain ⟨hc, ht⟩ := Failure.annotate_ofCause cause w.inside.calls
    rw [ht, hc]

theorem exists_innermost (h : config.run v = .error e t) :
    ∃ w, config.Reaches v w ∧ config.Innermost w ∧ ∃ u, config.run w = .error e u := by
  -- by induction on how far the depth is from the limit
  induction hn : config.maxDepth - v.session.depth using Nat.strongRecOn generalizing v t with
  | _ n ih =>
    by_cases hin : config.Innermost v
    · exact ⟨v, .refl, hin, t, h⟩
    · simp only [Innermost, ne_eq, Classical.not_forall, Classical.not_not] at hin
      obtain ⟨u, hu, e', t', hrun⟩ := hin
      have hv := hu.run_eq hrun
      rw [h] at hv
      cases hv
      have hlt := hu.1
      have hd := hu.sameFrames.depth
      rw [v.inside_depth] at hd
      obtain ⟨w, hw, hiw, hrw⟩ := ih _ (by omega) hrun rfl
      exact ⟨w, .head hu hw, hiw, hrw⟩

theorem inside_calls_suffix (w : Visit) : w.session.calls <:+ w.inside.calls := by
  unfold Visit.inside
  cases w.form with
  | call items l => exact List.suffix_cons _ _
  | _ => exact List.suffix_rfl

theorem Reaches.calls_suffix (h : config.Reaches v w) : v.inside.calls <:+ w.inside.calls := by
  induction h with
  | refl => exact List.suffix_rfl
  | @tail u w _ hlast ih =>
    refine ih.trans ?_
    rw [← hlast.sameFrames.calls]
    exact inside_calls_suffix w

/-- The empty call turns to nothing and does not fail. -/
theorem body_empty_call {l : Location} (hw : w.form = .call [] l) (access : Access)
    (ev : Evaluator) : w.body access ev = .ok .nil w.inside := by
  unfold Visit.body
  rw [hw]
  rfl

theorem form_ne_empty_call (h : config.run w = .error e t) (hf : e.cause.isFatal = false)
    (l : Location) : w.form ≠ .call [] l := by
  intro hw
  rcases run_eq_error h with rfl | ⟨-, e₀, t₀, hb, -⟩
  · cases hf
  · rw [body_empty_call hw] at hb
    cases hb

/-- Every open call names what it calls. -/
def HeadedCalls (calls : List OpenCall) : Prop := ∀ c ∈ calls, c.items ≠ []

theorem HeadedCalls.inside (h : HeadedCalls w.session.calls)
    (hw : ∀ l, w.form ≠ .call [] l) : HeadedCalls w.inside.calls := by
  unfold Visit.inside
  cases hf : w.form with
  | call items l =>
    rintro c (_ | ⟨_, hc⟩)
    · intro hi
      exact hw l (by rw [hf]; simpa using hi)
    · exact h c hc
  | _ => exact h

theorem Reaches.headedCalls (h : config.Reaches v w) (hv : HeadedCalls v.session.calls) :
    HeadedCalls w.session.calls := by
  induction h with
  | refl => exact hv
  | @tail u w _ hlast ih =>
    rw [hlast.sameFrames.calls]
    refine ih.inside fun l hl => ?_
    obtain ⟨r, hr⟩ := hlast.2
    rw [body_empty_call hl, body_empty_call hl] at hr
    exact hr rfl

theorem length_traceLines {calls : List OpenCall} (h : HeadedCalls calls) :
    (traceLines calls).length = calls.length := by
  induction calls with
  | nil => rfl
  | cons c calls ih =>
    obtain ⟨head, hhead⟩ : ∃ head, c.items.head? = some head :=
      Option.isSome_iff_exists.1 (List.isSome_head?.2 (h c (by simp)))
    have hrest := ih fun d hd => h d (by simp [hd])
    unfold traceLines at hrest ⊢
    simp [OpenCall.line?, hhead, hrest]

/-- The failure came out of this evaluation. -/
def PassesThrough (config : Config) (v w : Visit) : Prop :=
  config.Reaches v w ∧ ∃ e t, config.run w = .error e t

/-- A fatal failure has no trace. Any other has the calls that were open in the innermost evaluation
it passed through, and the lines of every evaluation further out stand at the end of its lines. -/
theorem failure_trace (config : Config) (v : Visit) (e : Failure) (t : Session)
    (h : config.run v = .error e t) :
    (∀ w, config.PassesThrough v w → ∃ u, config.run w = .error e u) ∧
    (e.cause.isFatal = true → e.trace = none ∧ e.lines = []) ∧
    (e.cause.isFatal = false →
      (∃ w, config.PassesThrough v w ∧ config.Innermost w) ∧
      (∀ w, config.PassesThrough v w → config.Innermost w →
        e.trace = some w.inside.calls ∧ e.lines = traceLines w.inside.calls ∧
          (HeadedCalls v.session.calls → e.lines.length = w.inside.calls.length)) ∧
      (∀ w, config.PassesThrough v w → traceLines w.inside.calls <:+ e.lines)) := by
  have hsame : ∀ w, config.PassesThrough v w → ∃ u, config.run w = .error e u := by
    rintro w ⟨hvw, e', u, hw⟩
    obtain ⟨t', ht'⟩ := hvw.run_eq hw
    rw [h] at ht'
    cases ht'
    exact ⟨u, hw⟩
  have htrace : e.cause.isFatal = false → ∀ w, config.PassesThrough v w → config.Innermost w →
      e.trace = some w.inside.calls ∧ e.lines = traceLines w.inside.calls := by
    intro hf w hw hin
    obtain ⟨u, hu⟩ := hsame w hw
    have ht := hin.trace_eq hu
    simp only [hf, Bool.false_eq_true, if_false] at ht
    exact ⟨ht, by simp [Failure.lines, ht]⟩
  obtain ⟨w, hvw, hin, u, hw⟩ := exists_innermost h
  refine ⟨hsame, fun hf => ?_, fun hf => ⟨⟨w, ⟨hvw, e, u, hw⟩, hin⟩, ?_, ?_⟩⟩
  · have ht := hin.trace_eq hw
    rw [hf, if_pos rfl] at ht
    exact ⟨ht, by simp [Failure.lines, ht, traceLines]⟩
  · intro x hx hinx
    obtain ⟨ht, hl⟩ := htrace hf x hx hinx
    refine ⟨ht, hl, fun hv => ?_⟩
    rw [hl]
    obtain ⟨u', hu'⟩ := hsame x hx
    exact length_traceLines ((hx.1.headedCalls hv).inside (form_ne_empty_call hu' hf))
  · intro x hx
    obtain ⟨u', hu'⟩ := hsame x hx
    obtain ⟨y, hxy, hiny, u'', hy⟩ := exists_innermost hu'
    obtain ⟨-, hl⟩ := htrace hf y ⟨hx.1.trans hxy, e, u'', hy⟩ hiny
    rw [hl]
    exact hxy.calls_suffix.filterMap _

/-- `((nil))` fails inside: nil is not a function. -/
theorem failure_trace_call :
    let config : Config := ⟨4, false, .all⟩
    let v : Visit := ⟨.empty, .call [.call [.atom .nil] ⟨"a", 1, 2⟩] ⟨"a", 1, 1⟩, .initial⟩
    ∃ e t, config.run v = .error e t ∧ e.lines = ["nil (a:1:2)", "(nil) (a:1:1)"] ∧
      ∃ w, config.PassesThrough v w ∧ config.Innermost w ∧ e.trace = some w.inside.calls := by
  intro config v
  refine ⟨_, _, rfl, by decide, ?_⟩
  obtain ⟨-, -, htraced⟩ := failure_trace config v _ _ rfl
  obtain ⟨⟨w, hw, hin⟩, htrace, -⟩ := htraced rfl
  exact ⟨w, hw, hin, (htrace w hw hin).1⟩

end Config

end Lisplet
