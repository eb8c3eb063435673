import Lisplet.Proofs.Frames

/-!
The depth limit only cuts off. Failures of one kind can be taken for missing answers, and outcomes
ordered by whether the answer is there: since nothing that is evaluated catches a failure, an
evaluator with more answers leads every evaluation to the same end or to one where the other had no
answer. A higher limit is such an evaluator, with overflows for the missing answers.
-/

namespace Lisplet

namespace Outcome

variable {α β : Type} {kind : Cause → Bool}

/-- The outcome is a failure of this kind. -/
def failsWith (kind : Cause → Bool) : Outcome α → Bool
  | .ok _ _ => false
  | .error e _ => kind e.cause

/-- Unless the first outcome is a failure of this kind, the second is the same. -/
def Below (kind : Cause → Bool) (r r' : Outcome α) : Prop :=
  r.failsWith kind = true ∨ r' = r

theorem Below.refl (r : Outcome α) : r.Below kind r := .inr rfl

theorem Below.eq {r r' : Outcome α} (h : r.Below kind r') (hr : r.failsWith kind = false) :
    r' = r := by
  rcases h with h | h
  · rw [hr] at h
    cases h
  · exact h

/-- Where the second has no answer, neither has the first. -/
theorem Below.failsWith {r r' : Outcome α} (h : r.Below kind r')
    (hr : r'.failsWith kind = true) : r.failsWith kind = true := by
  rcases h with h | rfl
  · exact h
  · exact hr

theorem Below.andThen {r r' : Outcome α} {f f' : α → Session → Outcome β}
    (h : r.Below kind r') (hf : ∀ a s, (f a s).Below kind (f' a s)) :
    (r.andThen f).Below kind (r'.andThen f') := by
  rcases h with h | rfl
  · cases r with
    | ok a s => cases h
    | error e s => exact .inl h
  · cases r' with
    | ok a s => exact hf a s
    | error e s => exact .refl _

end Outcome

theorem Failure.annotate_cause (e : Failure) (calls : List OpenCall) :
    (e.annotate calls).cause = e.cause := by
  unfold annotate
  split <;> rfl

/-- The second evaluator has every answer of the first. -/
def Evaluator.Below (kind : Cause → Bool) (ev ev' : Evaluator) : Prop :=
  ∀ scope form s, Outcome.Below kind (ev scope form s) (ev' scope form s)

variable {kind : Cause → Bool}

theorem Course.mono {α : Type} {s : Session} {x : Evaluator → Outcome α} (hx : Course s x)
    {ev ev' : Evaluator} (h : ev.Below kind ev') : (x ev).Below kind (x ev') := by
  induction hx with
  | ends _ a => exact .refl _
  | fails _ cause => exact .refl _
  | @asks s t _ scope form next _ ih => exact (h scope form t).andThen ih

theorem Eval.framed_below (form : Form) {act act' : Eval Value} {s : Session}
    (h : Outcome.Below kind (act (s.enter form)) (act' (s.enter form))) :
    Outcome.Below kind (framed form act s) (framed form act' s) := by
  unfold framed
  rcases h with h | h
  · left
    cases hr : act (s.enter form) with
    | ok v t =>
      rw [hr] at h
      cases h
    | error e t =>
      rw [hr] at h
      exact (congrArg kind (e.annotate_cause t.calls)).trans h
  · rw [h]
    exact .refl _

def Cause.isOverflow : Cause → Bool
  | overflow _ => true
  | _ => false

theorem evaluate_below (access : Access) {room room' : Nat} (h : room ≤ room') :
    (evaluate access room).Below Cause.isOverflow (evaluate access room') := by
  induction room generalizing room' with
  | zero => exact fun _ _ _ => .inl rfl
  | succ room ih =>
    obtain ⟨more, rfl⟩ : ∃ more, room' = more + 1 := ⟨room' - 1, by omega⟩
    intro scope form s
    apply Eval.framed_below
    exact (Eval.follows_step access scope form _).mono (ih (by omega))

namespace Config

/-- The same program under another limit. -/
def withLimit (config : Config) (limit : Nat) : Config := { config with maxDepth := limit }

theorem evaluate_below (config : Config) {limit : Nat} (h : config.maxDepth ≤ limit) :
    config.evaluate.Below Cause.isOverflow (config.withLimit limit).evaluate := by
  intro scope form s
  exact Lisplet.evaluate_below config.access (Nat.sub_le_sub_right h s.depth) scope form s

theorem runSource_below (config : Config) {limit : Nat} (h : config.maxDepth ≤ limit)
    (file source : String) (s : Session) :
    Outcome.Below Cause.isOverflow (config.runSource file source s)
      ((config.withLimit limit).runSource file source s) := by
  unfold runSource
  cases parse file source with
  | error e => exact .refl _
  | ok forms => exact (Eval.follows_evalBody .empty .nil forms s).mono (config.evaluate_below h)

/-- What ends within a limit ends in the same way, and in the same session, within every higher one;
what overflows under a limit overflows under every lower one. -/
theorem limit_cuts_off (config : Config) (limit : Nat) (h : config.maxDepth ≤ limit) :
    (∀ v : Visit,
      ((config.run v).failsWith Cause.isOverflow = false →
        (config.withLimit limit).run v = config.run v) ∧
      (((config.withLimit limit).run v).failsWith Cause.isOverflow = true →
        (config.run v).failsWith Cause.isOverflow = true)) ∧
    (∀ file source s,
      (Outcome.failsWith Cause.isOverflow (config.runSource file source s) = false →
        (config.withLimit limit).runSource file source s = config.runSource file source s) ∧
      (Outcome.failsWith Cause.isOverflow ((config.withLimit limit).runSource file source s) = true →
        Outcome.failsWith Cause.isOverflow (config.runSource file source s) = true)) := by
  refine ⟨fun v => ?_, fun file source s => ?_⟩
  · have hv := config.evaluate_below h v.scope v.form v.session
    exact ⟨hv.eq, hv.failsWith⟩
  · have hs := config.runSource_below h file source s
    exact ⟨hs.eq, hs.failsWith⟩

/-- Under a limit of two `[nil]` is evaluated and `[[nil]]` overflows. -/
theorem limit_cuts_off_vector :
    let config : Config := ⟨1, false, .all⟩
    let two := config.withLimit 2
    let v : Visit := ⟨.empty, .vector [.atom .nil], .initial⟩
    let w : Visit := ⟨.empty, .vector [v.form], .initial⟩
    (two.run v).failsWith Cause.isOverflow = false ∧ (two.withLimit 9).run v = two.run v ∧
      (two.run w).failsWith Cause.isOverflow = true ∧
      (config.run w).failsWith Cause.isOverflow = true ∧
      (two.withLimit 9).runSource "a" "[nil]" .initial = two.runSource "a" "[nil]" .initial := by
  intro config two v w
  have hv : (two.run v).failsWith Cause.isOverflow = false := rfl
  have hw : (two.run w).failsWith Cause.isOverflow = true := rfl
  have hs : Outcome.failsWith Cause.isOverflow (two.runSource "a" "[nil]" .initial) = false := by
    decide
  exact ⟨hv, ((limit_cuts_off two 9 (by decide)).1 v).1 hv, hw,
    ((limit_cuts_off config 2 (by decide)).1 w).2 hw,
    ((limit_cuts_off two 9 (by decide)).2 _ _ _).1 hs⟩

end Config

end Lisplet
