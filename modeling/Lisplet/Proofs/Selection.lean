import Lisplet.Proofs.Limits
import Mathlib

/-!
Operands that are not selected are never evaluated. What follows the deciding operand of an `if`,
`and`, `or` or `case`, and in a `case` the values of the clauses passed over, may be any forms at
all. They stand in the open call even so, but nothing looks at more of an open call than its line in
a trace, so in whatever way the whole ends, it ends the same.
-/

namespace Lisplet

/-! Open calls are seen only by their lines. -/

def OpenCall.SameLine (c d : OpenCall) : Prop := c.line? = d.line?

theorem traceLines_eq {calls calls' : List OpenCall}
    (h : List.Forall₂ OpenCall.SameLine calls calls') : traceLines calls = traceLines calls' := by
  unfold traceLines
  induction h with
  | nil => rfl
  | cons hc _ ih => rw [List.filterMap_cons, List.filterMap_cons, hc, ih]

/-- The open calls have the same lines, one by one, and nothing else is different. -/
def Session.SameLines (s t : Session) : Prop :=
  ∃ calls, List.Forall₂ OpenCall.SameLine s.calls calls ∧ t = { s with calls }

structure Failure.SameLines (e e' : Failure) : Prop where
  cause : e.cause = e'.cause
  trace : Option.Rel (List.Forall₂ OpenCall.SameLine) e.trace e'.trace

inductive Outcome.SameLines {α : Type} : Outcome α → Outcome α → Prop
  | ok (a : α) {s t : Session} (h : s.SameLines t) : SameLines (.ok a s) (.ok a t)
  | error {e e' : Failure} {s t : Session} (he : e.SameLines e') (h : s.SameLines t) :
      SameLines (.error e s) (.error e' t)

namespace Session.SameLines

variable {s t : Session}

theorem calls (h : s.SameLines t) : List.Forall₂ OpenCall.SameLine s.calls t.calls := by
  obtain ⟨calls, hcalls, rfl⟩ := h
  exact hcalls

theorem enter (h : s.SameLines t) (form : Form) : (s.enter form).SameLines (t.enter form) := by
  obtain ⟨calls, hcalls, rfl⟩ := h
  cases form with
  | call items l => exact ⟨⟨items, l⟩ :: calls, .cons rfl hcalls, rfl⟩
  | _ => exact ⟨calls, hcalls, rfl⟩

theorem leave (h : s.SameLines t) (form : Form) : (s.leave form).SameLines (t.leave form) := by
  obtain ⟨calls, hcalls, rfl⟩ := h
  cases form with
  | call items l =>
    refine ⟨calls.tail, ?_, rfl⟩
    change List.Forall₂ OpenCall.SameLine s.calls.tail calls.tail
    simpa only [List.drop_one] using List.forall₂_drop 1 hcalls
  | _ => exact ⟨calls, hcalls, rfl⟩

theorem of_enter (s : Session) (head : Form) (operands operands' : List Form) (l : Location) :
    (s.enter (.call (head :: operands) l)).SameLines (s.enter (.call (head :: operands') l)) :=
  ⟨⟨head :: operands', l⟩ :: s.calls, .cons rfl (List.forall₂_same.2 fun _ _ => rfl), rfl⟩

end Session.SameLines

theorem Failure.SameLines.annotate {e e' : Failure} (h : e.SameLines e')
    {calls calls' : List OpenCall} (hc : List.Forall₂ OpenCall.SameLine calls calls') :
    (e.annotate calls).SameLines (e'.annotate calls') := by
  obtain ⟨cause, trace⟩ := e
  obtain ⟨cause', trace'⟩ := e'
  obtain rfl : cause = cause' := h.cause
  have htrace : Option.Rel (List.Forall₂ OpenCall.SameLine) trace trace' := h.trace
  cases htrace with
  | some hlines => exact ⟨rfl, .some hlines⟩
  | none =>
    unfold Failure.annotate
    split
    · exact ⟨rfl, .none⟩
    · exact ⟨rfl, .some hc⟩

/-- The computation cannot tell open calls with the same lines apart. -/
def Eval.Blind {α : Type} (x : Eval α) : Prop :=
  ∀ s t : Session, s.SameLines t → Outcome.SameLines (x s) (x t)

namespace Eval

theorem Made.blind {α : Type} {x : Evaluator → Eval α} (h : Made x) {ev : Evaluator}
    (hev : ∀ scope form, Blind (ev scope form)) : Blind (x ev) := by
  induction h with
  | pure a => exact fun s t hst => .ok a hst
  | fail cause => exact fun s t hst => .error ⟨rfl, .none⟩ hst
  | @act _ f hf =>
    rintro s _ ⟨calls, hcalls, rfl⟩
    -- Both sessions take the change alike, and each keeps its own open calls.
    change Outcome.SameLines (.ok (f s).1 (f s).2)
      (.ok (f { s with calls }).1 (f { s with calls }).2)
    rw [hf.withCalls s calls]
    exact .ok _ ⟨calls, (hf.calls s).symm ▸ hcalls, rfl⟩
  | lines =>
    intro s t hst
    change Outcome.SameLines (.ok (traceLines s.calls) s) (.ok (traceLines t.calls) t)
    rw [traceLines_eq hst.calls]
    exact .ok _ hst
  | ask scope form => exact hev scope form
  | @bind _ _ x f _ _ hx hf =>
    intro s t hst
    change Outcome.SameLines ((x ev >>= fun a => f a ev) s) ((x ev >>= fun a => f a ev) t)
    rw [Outcome.bind_apply, Outcome.bind_apply]
    have hfirst := hx s t hst
    generalize x ev s = r at hfirst
    generalize x ev t = r' at hfirst
    cases hfirst with
    | ok a hst => exact hf a _ _ hst
    | error he hst => exact .error he hst

theorem sameLines_framed {form form' : Form} (hleave : ∀ u : Session, u.leave form' = u.leave form)
    {x y : Eval Value} {s t : Session}
    (h : Outcome.SameLines (x (s.enter form)) (y (t.enter form'))) :
    Outcome.SameLines (framed form x s) (framed form' y t) := by
  unfold framed
  generalize x (s.enter form) = r at h
  generalize y (t.enter form') = r' at h
  cases h with
  | ok v hst =>
    simp only [hleave]
    exact .ok v (hst.leave form)
  | error he hst =>
    simp only [hleave]
    exact .error (he.annotate hst.calls) (hst.leave form)

theorem blind_framed (form : Form) {x : Eval Value} (h : Blind x) : Blind (framed form x) :=
  fun _ _ hst => sameLines_framed (fun _ => rfl) (h _ _ (hst.enter form))

end Eval

theorem evaluate_blind (access : Access) (room : Nat) (scope : Bindings) (form : Form) :
    Eval.Blind (evaluate access room scope form) := by
  induction room generalizing scope form with
  | zero =>
    rintro s _ ⟨calls, hcalls, rfl⟩
    exact .error ⟨rfl, .none⟩ ⟨calls, hcalls, rfl⟩
  | succ room ih =>
    exact Eval.blind_framed form ((Eval.made_step access scope form).blind ih)

theorem Config.evaluate_blind (config : Config) (scope : Bindings) (form : Form) :
    Eval.Blind (config.evaluate scope form) := by
  rintro s _ ⟨calls, hcalls, rfl⟩
  exact Lisplet.evaluate_blind config.access _ scope form s _ ⟨calls, hcalls, rfl⟩

def Failure.shown (e : Failure) : Cause × Option (List String) := (e.cause, e.trace.map traceLines)

/-- An outcome, with a failure as it is reported. -/
def Outcome.shown {α : Type} : Outcome α → EStateM.Result (Cause × Option (List String)) Session α
  | .ok a s => .ok a s
  | .error e s => .error e.shown s

theorem Failure.SameLines.shown_eq {e e' : Failure} (h : e.SameLines e') : e.shown = e'.shown := by
  obtain ⟨hcause, htrace⟩ := h
  unfold shown
  rw [hcause]
  generalize e.trace = trace at htrace
  generalize e'.trace = trace' at htrace
  cases htrace with
  | some hlines => rw [Option.map_some, Option.map_some, traceLines_eq hlines]
  | none => rfl

theorem Outcome.SameLines.shown_eq {α : Type} {r r' : Outcome α} (h : Outcome.SameLines r r')
    (hcalls : r'.session.calls = r.session.calls) : r.shown = r'.shown := by
  cases h with
  | ok a hst =>
    obtain ⟨calls, -, rfl⟩ := hst
    obtain rfl : calls = _ := hcalls
    rfl
  | error he hst =>
    obtain ⟨calls, -, rfl⟩ := hst
    obtain rfl : calls = _ := hcalls
    rw [Outcome.shown, Outcome.shown, he.shown_eq]
    rfl

/-! What is selected. -/

namespace Eval

/-- Clauses as they are written, keys and values by turns. -/
def flat (clauses : List (Form × Form)) : List Form := clauses.flatMap fun c => [c.1, c.2]

/-- Operands of a special form, and others that differ from them only where nothing is selected, in
the session in which the first is evaluated. An operand that fails is the last one selected. -/
inductive Unselected (ev : Evaluator) (scope : Bindings) :
    SpecialForm → Session → List Form → List Form → Prop
  /-- Behind a true test, another second branch or none. -/
  | otherwise {s : Session} {test : Form}
      (htest : ∀ v t, ev scope test s = .ok v t → v.isTruthy = true) (yes : Form)
      (no no' : Option Form) :
      Unselected ev scope .cond s (test :: yes :: no.toList) (test :: yes :: no'.toList)
  /-- Behind a false test, another first branch. -/
  | consequent {s : Session} {test : Form}
      (htest : ∀ v t, ev scope test s = .ok v t → v.isTruthy = false) (yes yes' : Form)
      (no : Option Form) :
      Unselected ev scope .cond s (test :: yes :: no.toList) (test :: yes' :: no.toList)
  /-- Behind the first false operand, any others. -/
  | and {s t : Session} {before : List Form} {vs : List Value} {last : Form}
      (hbefore : evalAll ev scope before s = .ok vs t) (hvs : ∀ v ∈ vs, v.isTruthy = true)
      (hlast : ∀ v u, ev scope last t = .ok v u → v.isTruthy = false) (rest rest' : List Form) :
      Unselected ev scope .and s (before ++ last :: rest) (before ++ last :: rest')
  /-- Behind the first true operand, any others. -/
  | or {s t : Session} {before : List Form} {vs : List Value} {last : Form}
      (hbefore : evalAll ev scope before s = .ok vs t) (hvs : ∀ v ∈ vs, v.isTruthy = false)
      (hlast : ∀ v u, ev scope last t = .ok v u → v.isTruthy = true) (rest rest' : List Form) :
      Unselected ev scope .or s (before ++ last :: rest) (before ++ last :: rest')
  /-- Other values for the keys that are not equal to the subject, and behind the clause whose key
  is, any other operands. -/
  | found {s t u : Session} {subject key : Form} {v : Value} {ws : List Value}
      {clauses clauses' : List (Form × Form)} (hsubject : ev scope subject s = .ok v t)
      (hkeys : clauses'.map Prod.fst = clauses.map Prod.fst)
      (hclauses : evalAll ev scope (clauses.map Prod.fst) t = .ok ws u)
      (hws : ∀ w ∈ ws, v.loose w = false)
      (hkey : ∀ w u', ev scope key u = .ok w u' → v.loose w = true) (form : Form)
      (rest rest' : List Form) :
      Unselected ev scope .case s (subject :: (flat clauses ++ key :: form :: rest))
        (subject :: (flat clauses' ++ key :: form :: rest'))
  /-- Behind a subject that fails, any operands. -/
  | subjectFails {s : Session} {subject : Form} (hsubject : ∀ v t, ev scope subject s ≠ .ok v t)
      (rest rest' : List Form) :
      Unselected ev scope .case s (subject :: rest) (subject :: rest')
  /-- Behind a key that fails, any operands, its own value included. -/
  | keyFails {s t u : Session} {subject key : Form} {v : Value} {ws : List Value}
      {clauses clauses' : List (Form × Form)} (hsubject : ev scope subject s = .ok v t)
      (hkeys : clauses'.map Prod.fst = clauses.map Prod.fst)
      (hclauses : evalAll ev scope (clauses.map Prod.fst) t = .ok ws u)
      (hws : ∀ w ∈ ws, v.loose w = false) (hkey : ∀ w u', ev scope key u ≠ .ok w u')
      (rest rest' : List Form) :
      Unselected ev scope .case s (subject :: (flat clauses ++ key :: rest))
        (subject :: (flat clauses' ++ key :: rest'))
  /-- Other values for all keys, if none is equal to the subject. -/
  | unfound {s t u : Session} {subject : Form} {v : Value} {ws : List Value}
      {clauses clauses' : List (Form × Form)} (hsubject : ev scope subject s = .ok v t)
      (hkeys : clauses'.map Prod.fst = clauses.map Prod.fst)
      (hclauses : evalAll ev scope (clauses.map Prod.fst) t = .ok ws u)
      (hws : ∀ w ∈ ws, v.loose w = false) (default : Option Form) :
      Unselected ev scope .case s (subject :: (flat clauses ++ default.toList))
        (subject :: (flat clauses' ++ default.toList))

variable {ev : Evaluator} {scope : Bindings}

theorem evalAll_cons_ok {form : Form} {forms : List Form} {s u : Session} {vs : List Value}
    (h : evalAll ev scope (form :: forms) s = .ok vs u) :
    ∃ v t ws, vs = v :: ws ∧ ev scope form s = .ok v t ∧ evalAll ev scope forms t = .ok ws u := by
  rw [evalAll] at h
  cases hv : ev scope form s with
  | error e t =>
    rw [Outcome.bind_of_error hv] at h
    cases h
  | ok v t =>
    rw [Outcome.bind_of_ok hv] at h
    cases hws : evalAll ev scope forms t with
    | error e t' =>
      rw [Outcome.bind_of_error hws] at h
      cases h
    | ok ws t' =>
      rw [Outcome.bind_of_ok hws] at h
      cases h
      exact ⟨v, t, ws, rfl, rfl, hws⟩

theorem evalIf_of_truthy {test : Form} {s t : Session} {v : Value}
    (h : ev scope test s = .ok v t) (hv : v.isTruthy = true) (yes : Form) (no : Option Form) :
    evalIf ev scope (test :: yes :: no.toList) s = ev scope yes t := by
  cases no <;> rw [Option.toList, evalIf, Outcome.bind_of_ok h, if_pos hv]

theorem evalIf_of_falsy {test : Form} {s t : Session} {v : Value}
    (h : ev scope test s = .ok v t) (hv : v.isTruthy = false) (yes : Form) (no : Option Form) :
    evalIf ev scope (test :: yes :: no.toList) s = ((no.map (ev scope)).getD (pure .nil)) t := by
  cases no <;> rw [Option.toList, evalIf, Outcome.bind_of_ok h, if_neg (by simp [hv])] <;> rfl

theorem evalIf_of_error {test : Form} {s t : Session} {e : Failure}
    (h : ev scope test s = .error e t) (yes : Form) (no : Option Form) :
    evalIf ev scope (test :: yes :: no.toList) s = .error e t := by
  cases no <;> rw [Option.toList, evalIf, Outcome.bind_of_error h]

theorem evalAnd_append {before : List Form} {s t : Session} {vs : List Value}
    (h : evalAll ev scope before s = .ok vs t) (hvs : ∀ v ∈ vs, v.isTruthy = true)
    (rest : List Form) : evalAnd ev scope (before ++ rest) s = evalAnd ev scope rest t := by
  induction before generalizing s vs with
  | nil =>
    cases h
    rfl
  | cons form before ih =>
    obtain ⟨v, u, ws, rfl, hv, hws⟩ := evalAll_cons_ok h
    rw [List.cons_append, evalAnd, Outcome.bind_of_ok hv, if_pos (hvs v (by simp)),
      ih hws fun w hw => hvs w (by simp [hw])]

theorem evalOr_append {before : List Form} {s t : Session} {vs : List Value}
    (h : evalAll ev scope before s = .ok vs t) (hvs : ∀ v ∈ vs, v.isTruthy = false)
    (rest : List Form) : evalOr ev scope (before ++ rest) s = evalOr ev scope rest t := by
  induction before generalizing s vs with
  | nil =>
    cases h
    rfl
  | cons form before ih =>
    obtain ⟨v, u, ws, rfl, hv, hws⟩ := evalAll_cons_ok h
    rw [List.cons_append, evalOr, Outcome.bind_of_ok hv, if_neg (by simp [hvs v]),
      ih hws fun w hw => hvs w (by simp [hw])]

theorem evalClauses_append {subject : Value} {clauses : List (Form × Form)} {s t : Session}
    {ws : List Value} (h : evalAll ev scope (clauses.map Prod.fst) s = .ok ws t)
    (hws : ∀ w ∈ ws, subject.loose w = false) (rest : List Form) :
    evalClauses ev scope subject (flat clauses ++ rest) s =
      evalClauses ev scope subject rest t := by
  induction clauses generalizing s ws with
  | nil =>
    cases h
    rfl
  | cons c clauses ih =>
    obtain ⟨w, u, ws, rfl, hw, hrest⟩ := evalAll_cons_ok h
    change evalClauses ev scope subject (c.1 :: c.2 :: (flat clauses ++ rest)) s = _
    rw [evalClauses, Outcome.bind_of_ok hw, if_neg (by simp [hws w]),
      ih hrest fun w hw => hws w (by simp [hw])]

theorem evalClauses_of_error {subject : Value} {key : Form} {s t : Session} {e : Failure}
    (h : ev scope key s = .error e t) (rest : List Form) :
    evalClauses ev scope subject (key :: rest) s = .error e t := by
  cases rest with
  | nil => exact h
  | cons form rest => rw [evalClauses, Outcome.bind_of_error h]

theorem Unselected.callSpecial_eq {special : SpecialForm} {s : Session}
    {operands operands' : List Form} (h : Unselected ev scope special s operands operands') :
    callSpecial ev scope operands special s = callSpecial ev scope operands' special s := by
  cases h with
  | @otherwise _ test htest yes no no' =>
    rw [callSpecial, callSpecial]
    cases hv : ev scope test s with
    | error e t => rw [evalIf_of_error hv, evalIf_of_error hv]
    | ok v t => rw [evalIf_of_truthy hv (htest v t hv), evalIf_of_truthy hv (htest v t hv)]
  | @consequent _ test htest yes yes' no =>
    rw [callSpecial, callSpecial]
    cases hv : ev scope test s with
    | error e t => rw [evalIf_of_error hv, evalIf_of_error hv]
    | ok v t => rw [evalIf_of_falsy hv (htest v t hv), evalIf_of_falsy hv (htest v t hv)]
  | @and _ t before vs last hbefore hvs hlast rest rest' =>
    rw [callSpecial, callSpecial, evalAnd_append hbefore hvs, evalAnd_append hbefore hvs, evalAnd,
      evalAnd]
    cases hv : ev scope last t with
    | error e u => rw [Outcome.bind_of_error hv, Outcome.bind_of_error hv]
    | ok v u =>
      have hfalse : ¬v.isTruthy = true := by simp [hlast v u hv]
      rw [Outcome.bind_of_ok hv, Outcome.bind_of_ok hv, if_neg hfalse, if_neg hfalse]
  | @or _ t before vs last hbefore hvs hlast rest rest' =>
    rw [callSpecial, callSpecial, evalOr_append hbefore hvs, evalOr_append hbefore hvs, evalOr,
      evalOr]
    cases hv : ev scope last t with
    | error e u => rw [Outcome.bind_of_error hv, Outcome.bind_of_error hv]
    | ok v u =>
      have htrue : v.isTruthy = true := hlast v u hv
      rw [Outcome.bind_of_ok hv, Outcome.bind_of_ok hv, if_pos htrue, if_pos htrue]
  | @found _ t u subject key v ws clauses clauses' hsubject hkeys hclauses hws hkey form rest
      rest' =>
    rw [callSpecial, callSpecial, evalCase, evalCase, Outcome.bind_of_ok hsubject,
      Outcome.bind_of_ok hsubject, evalClauses_append hclauses hws,
      evalClauses_append (hkeys ▸ hclauses) hws, evalClauses, evalClauses]
    cases hw : ev scope key u with
    | error e u' => rw [Outcome.bind_of_error hw, Outcome.bind_of_error hw]
    | ok w u' =>
      have hequal : v.loose w = true := hkey w u' hw
      rw [Outcome.bind_of_ok hw, Outcome.bind_of_ok hw, if_pos hequal, if_pos hequal]
  | @subjectFails _ subject hsubject rest rest' =>
    rw [callSpecial, callSpecial, evalCase, evalCase]
    cases hv : ev scope subject s with
    | error e t => rw [Outcome.bind_of_error hv, Outcome.bind_of_error hv]
    | ok v t => exact absurd hv (hsubject v t)
  | @keyFails _ t u subject key v ws clauses clauses' hsubject hkeys hclauses hws hkey rest rest' =>
    rw [callSpecial, callSpecial, evalCase, evalCase, Outcome.bind_of_ok hsubject,
      Outcome.bind_of_ok hsubject, evalClauses_append hclauses hws,
      evalClauses_append (hkeys ▸ hclauses) hws]
    cases hw : ev scope key u with
    | error e u' => rw [evalClauses_of_error hw, evalClauses_of_error hw]
    | ok w u' => exact absurd hw (hkey w u')
  | @unfound _ t u subject v ws clauses clauses' hsubject hkeys hclauses hws default =>
    rw [callSpecial, callSpecial, evalCase, evalCase, Outcome.bind_of_ok hsubject,
      Outcome.bind_of_ok hsubject, evalClauses_append hclauses hws,
      evalClauses_append (hkeys ▸ hclauses) hws]

theorem evalCall_eq_of_unselected {access : Access} {head : Form} {operands operands' : List Form}
    {s : Session} (h : ∀ f t, ev scope head s = .ok f t →
      ∃ special, f = .function (.special special) ∧
        Unselected ev scope special t operands operands') :
    evalCall access ev scope (head :: operands) s =
      evalCall access ev scope (head :: operands') s := by
  rw [evalCall, evalCall]
  cases hhead : ev scope head s with
  | error e t => rw [Outcome.bind_of_error hhead, Outcome.bind_of_error hhead]
  | ok f t =>
    obtain ⟨special, rfl, hsame⟩ := h f t hhead
    rw [Outcome.bind_of_ok hhead, Outcome.bind_of_ok hhead]
    exact hsame.callSpecial_eq

end Eval

namespace Config

/-- In every session and scope a call of a special form comes to the same value and session, or to
the same failure with the same trace, whatever stands where nothing is selected. -/
theorem unselected_irrelevant (config : Config) (scope : Bindings) (s : Session) (head : Form)
    (operands operands' : List Form) (l : Location)
    (h : ∀ f t, config.evaluate scope head (s.enter (.call (head :: operands) l)) = .ok f t →
      ∃ special, f = .function (.special special) ∧
        Eval.Unselected config.evaluate scope special t operands operands') :
    Outcome.shown (config.evaluate scope (.call (head :: operands) l) s) =
      Outcome.shown (config.evaluate scope (.call (head :: operands') l) s) := by
  obtain hfull | hroom := le_or_gt config.maxDepth s.depth
  · rw [config.evaluate_of_le scope _ hfull, config.evaluate_of_le scope _ hfull]
  · have hframes := config.evaluate_keepsFrames scope (.call (head :: operands) l) s
    have hframes' := config.evaluate_keepsFrames scope (.call (head :: operands') l) s
    refine Outcome.SameLines.shown_eq ?_ (hframes'.calls.trans hframes.calls.symm)
    rw [config.evaluate_of_lt scope _ hroom, config.evaluate_of_lt scope _ hroom]
    refine Eval.sameLines_framed (by intro u; rfl) ?_
    -- The operands go first, where the call is open already, and the open call itself after them.
    rw [Eval.step, Eval.step, Eval.evalCall_eq_of_unselected h]
    exact (Eval.made_evalCall config.access scope (head :: operands')).blind
      config.evaluate_blind _ _ (.of_enter s head operands operands' l)

/-- A name without a value stands where a value was, and two more behind what was the end. -/
theorem unselected_irrelevant_case :
    let config : Config := ⟨9, false, .all⟩
    let s : Session :=
      { Session.initial with globals := Bindings.empty.insert "case" (.function (.special .case)) }
    let l : Location := ⟨"a", 1, 1⟩
    let text (a : String) : Form := .atom (.text a)
    let form (value : Form) (rest : List Form) : Form :=
      .call (.symbol "case" :: text "b" :: text "a" :: value :: text "b" :: .vector [] :: rest) l
    Outcome.shown (config.evaluate .empty (form (text "c") []) s) =
        Outcome.shown (config.evaluate .empty (form (.symbol "x") [.symbol "y", .symbol "z"]) s) ∧
      config.evaluate .empty (form (text "c") []) s = .ok (.list []) s := by
  intro config s l text form
  refine ⟨config.unselected_irrelevant .empty s (.symbol "case") _ _ l fun f t hhead => ?_, rfl⟩
  obtain ⟨rfl, rfl⟩ : .function (.special .case) = f ∧ s.enter (form (text "c") []) = t := by
    cases hhead
    exact ⟨rfl, rfl⟩
  have hclauses : Eval.Unselected config.evaluate .empty .case (s.enter (form (text "c") []))
      (text "b" :: (Eval.flat [(text "a", text "c")] ++ text "b" :: .vector [] :: []))
      (text "b" :: (Eval.flat [(text "a", .symbol "x")] ++ text "b" :: .vector [] ::
        [.symbol "y", .symbol "z"])) := by
    have hkeys : Eval.evalAll config.evaluate .empty [text "a"] (s.enter (form (text "c") [])) =
        .ok [.text "a"] (s.enter (form (text "c") [])) := rfl
    refine .found (by rfl) (by rfl) hkeys ?_ ?_ _ _ _
    · intro w hw
      obtain rfl := List.mem_singleton.1 hw
      decide
    · intro w t hw
      cases hw
      decide
  exact ⟨.case, rfl, hclauses⟩

end Config

end Lisplet
