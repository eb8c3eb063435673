import Lisplet.Proofs.Cycles
import Lisplet.Proofs.Gate
import Mathlib

/-!
Every run ends. Evaluation is given here by rules in which nothing is counted down: a form is
refused at the limit, and otherwise its outcome comes from the outcomes of the forms it has
evaluated, however many they are. A derivation is a run that ends. Every form, and so every source
text, has exactly one, and its outcome is the one that `evaluate` gives. What happens between two
forms needs the same care in three places, the chain of an `apply` that applies itself and the two
walks over tables, and there too the rules have one derivation each.
-/

namespace Lisplet

/-- What comes of a computation that has forms evaluated, given the outcomes they can have. -/
inductive ComesTo (answers : Visit → Outcome Value → Prop) {α : Type} :
    (Evaluator → Outcome α) → Outcome α → Prop
  | ends (r : Outcome α) : ComesTo answers (fun _ => r) r
  | fails {scope : Bindings} {form : Form} {s t : Session} {e : Failure}
      (next : Value → Session → Evaluator → Outcome α)
      (hw : answers ⟨scope, form, s⟩ (.error e t)) :
      ComesTo answers (fun ev => Outcome.andThen (ev scope form s) fun v u => next v u ev)
        (.error e t)
  | goesOn {scope : Bindings} {form : Form} {s t : Session} {v : Value} {r : Outcome α}
      {next : Value → Session → Evaluator → Outcome α}
      (hw : answers ⟨scope, form, s⟩ (.ok v t)) (hn : ComesTo answers (next v t) r) :
      ComesTo answers (fun ev => Outcome.andThen (ev scope form s) fun v u => next v u ev) r

/-- The outcome of a form, from what comes of its evaluation while it is open. -/
def Visit.close (w : Visit) : Outcome Value → Outcome Value
  | .ok v s => .ok v (s.leave w.form)
  | .error e s => .error (e.annotate s.calls) (s.leave w.form)

namespace Config

/-- The evaluation of a form ends with an outcome. -/
inductive Ends (config : Config) : Visit → Outcome Value → Prop
  | refused {w : Visit} (hd : config.maxDepth ≤ w.session.depth) :
      Ends config w (.error (.ofCause (.overflow w.session.depth)) w.session)
  | framed {w : Visit} {r : Outcome Value} (hd : w.session.depth < config.maxDepth)
      (hbody : ComesTo (Ends config) (w.body config.access) r) : Ends config w (w.close r)

/-- The run of a source text ends with an outcome. -/
inductive SourceEnds (config : Config) (file source : String) (s : Session) : Outcome Value → Prop
  | unreadable {e : ReadError} (hp : parse file source = .error e) :
      SourceEnds config file source s (.error (.ofCause (.unreadable e)) s)
  | evaluated {forms : List Form} {r : Outcome Value} (hp : parse file source = .ok forms)
      (hr : ComesTo config.Ends (fun ev => Eval.evalBody ev .empty .nil forms s) r) :
      SourceEnds config file source s r

end Config

/-- What `apply` comes to on its arguments. When it is to apply itself, the arguments after that
are all that is left. -/
inductive Spreads (h : Heap) : List Value → Except Cause (Function × List Value) → Prop
  | missing : Spreads h [] (.error (.arity Function.applyName (.atLeast 2) 0))
  | alone (callee : Value) : Spreads h [callee] (.error (.arity Function.applyName (.atLeast 2) 1))
  | unlisted (callee : Value) (leading : List Value) {v : Value} (hv : v.kind ≠ .list) :
      Spreads h (callee :: (leading ++ [v]))
        (.error (.mismatch Function.applyName (.expected "Array" v.kind)))
  | uncallable {callee : Value} (leading items : List Value) (hc : callee.kind ≠ .function) :
      Spreads h (callee :: (leading ++ [.list items])) (.error (.notCallable (h.inspect callee)))
  | calls {f : Function} (leading items : List Value) (hf : f ≠ .apply) :
      Spreads h (.function f :: (leading ++ [.list items])) (.ok (f, leading ++ items))
  | again {leading items : List Value} {r : Except Cause (Function × List Value)}
      (hr : Spreads h (leading ++ items) r) :
      Spreads h (.function .apply :: (leading ++ [.list items])) r

namespace ComesTo

variable {answers : Visit → Outcome Value → Prop} {α : Type} {x : Evaluator → Outcome α}
  {r : Outcome α}

/-- What a computation comes to is what it computes, if forms have no other outcomes than those that
the evaluator gives them. -/
theorem eq {ev : Evaluator}
    (hans : ∀ w r, answers w r → r = ev w.scope w.form w.session) (hx : ComesTo answers x r) :
    r = x ev := by
  induction hx with
  | ends r => rfl
  | fails next hw =>
    have hrun := hans _ _ hw
    simp only [← hrun, Outcome.andThen_error]
  | goesOn hw _ ih =>
    have hrun := hans _ _ hw
    simp only [← hrun, Outcome.andThen_ok, ih]

/-- A computation comes to what it computes, if forms have the outcomes that the evaluator gives
them whenever the frames are those at the start. -/
theorem of_course {ev : Evaluator} (hev : ev.KeepsFrames) {s : Session} (hx : Course s x)
    (hans : ∀ w : Visit, s.SameFrames w.session → answers w (ev w.scope w.form w.session)) :
    ComesTo answers x (x ev) := by
  induction hx with
  | ends _ a => exact .ends _
  | fails _ cause => exact .ends _
  | @asks s t hst scope form next _ ih =>
    have hw := hans ⟨scope, form, t⟩ hst
    have hframes := hev scope form t
    cases hr : ev scope form t with
    | error e u =>
      simp only [hr] at hw ⊢
      exact .fails next hw
    | ok v u =>
      simp only [hr] at hw hframes ⊢
      exact .goesOn hw (ih v u fun w hw => hans w (hst.trans (hframes.trans hw)))

end ComesTo

theorem Eval.framed_eq_close (access : Access) (ev : Evaluator) (w : Visit) :
    framed w.form (step access ev w.scope w.form) w.session = w.close (w.body access ev) := by
  unfold framed Visit.close Visit.body Visit.inside
  cases step access ev w.scope w.form (w.session.enter w.form) <;> rfl

namespace Config

variable {config : Config}

theorem run_of_lt {w : Visit} (hd : w.session.depth < config.maxDepth) :
    config.run w = w.close (w.body config.access config.evaluate) := by
  rw [run, config.evaluate_of_lt w.scope w.form hd, Eval.framed_eq_close]

theorem Ends.eq_run {w : Visit} {r : Outcome Value} (he : config.Ends w r) : r = config.run w := by
  refine @Ends.rec config (fun w r _ => r = config.run w)
    (fun x r _ => ComesTo (fun w r => r = config.run w) x r) ?_ ?_ ?_ ?_ ?_ w r he
  · intro w hd
    exact (config.evaluate_of_le w.scope w.form hd).symm
  · intro w r hd _ hr
    rw [run_of_lt hd, hr.eq fun _ _ hw => hw]
  · exact fun r => .ends r
  · intro scope form s t e next _ hw
    exact .fails next hw
  · intro scope form s t v r next _ _ hw hn
    exact .goesOn hw hn

/-- Every form is at the limit, or further from it than the forms that it has evaluated. -/
theorem ends_run (config : Config) (w : Visit) : config.Ends w (config.run w) := by
  by_cases hd : w.session.depth < config.maxDepth
  · have hinside := w.inside_depth
    rw [run_of_lt hd]
    refine .framed hd (.of_course config.evaluate_keepsFrames (w.body_course config.access) ?_)
    intro u hu
    have hdepth := hu.depth
    exact ends_run config u
  · have hge := Nat.le_of_not_lt hd
    rw [run, config.evaluate_of_le w.scope w.form hge]
    exact .refused hge
termination_by config.maxDepth - w.session.depth

theorem ends_iff {w : Visit} {r : Outcome Value} : config.Ends w r ↔ r = config.run w := by
  refine ⟨Ends.eq_run, ?_⟩
  rintro rfl
  exact config.ends_run w

theorem sourceEnds_iff {file source : String} {s : Session} {r : Outcome Value} :
    config.SourceEnds file source s r ↔ r = config.runSource file source s := by
  constructor
  · intro he
    rcases he with hp | ⟨hp, hr⟩
    · rw [runSource, hp]
      rfl
    · rw [runSource, hp, hr.eq fun _ _ hw => hw.eq_run]
      rfl
  · rintro rfl
    rw [runSource]
    cases hp : parse file source with
    | error e => exact .unreadable hp
    | ok forms =>
      exact .evaluated hp (.of_course config.evaluate_keepsFrames
        (Eval.follows_evalBody .empty .nil forms s) fun w _ => config.ends_run w)

end Config

/-! How much a run can reach. -/

theorem Course.finite_decides {α : Type} {s : Session} {x : Evaluator → Outcome α}
    (hx : Course s x) (ev : Evaluator) : {w : Visit | w.Decides x ev}.Finite := by
  induction hx with
  | ends _ a => exact Set.finite_empty.subset fun w ⟨_, hr⟩ => hr rfl
  | fails _ cause => exact Set.finite_empty.subset fun w ⟨_, hr⟩ => hr rfl
  | @asks s t _ scope form next _ ih =>
    -- the form that is evaluated first, and if that gives a value, those that come after it
    have hlater :
        {w : Visit | ∃ v u, ev scope form t = .ok v u ∧ w.Decides (next v u) ev}.Finite := by
      cases hr : ev scope form t with
      | error e u => simp
      | ok v u => simpa using ih v u
    refine (hlater.insert ⟨scope, form, t⟩).subset ?_
    rintro w ⟨r, hr⟩
    by_cases heq : Visit.mk scope form t = w
    · exact .inl heq.symm
    · right
      simp only [Evaluator.answering, heq, if_false] at hr
      cases hev : ev scope form t with
      | error e u => simp [hev] at hr
      | ok v u =>
        simp only [hev, Outcome.andThen_ok] at hr
        exact ⟨v, u, rfl, r, hr⟩

namespace Config

variable {config : Config}

theorem TurnsTo.depth_eq {v w : Visit} (h : config.TurnsTo v w) :
    w.session.depth = v.session.depth + 1 := by
  rw [h.sameFrames.depth, v.inside_depth]

theorem finite_turnsTo (config : Config) (v : Visit) : {w | config.TurnsTo v w}.Finite :=
  ((v.body_course config.access).finite_decides config.evaluate).subset fun _ hw => hw.2

theorem finite_reaches (config : Config) (v : Visit) : {w | config.Reaches v w}.Finite := by
  have hinside : (⋃ u ∈ {u | config.TurnsTo v u}, {w | config.Reaches u w}).Finite := by
    refine (config.finite_turnsTo v).biUnion fun u hu => ?_
    have hlt := hu.1
    have hdepth := hu.depth_eq
    exact finite_reaches config u
  refine (hinside.insert v).subset fun w hw => ?_
  rcases Relation.ReflTransGen.cases_head hw with rfl | ⟨u, hvu, huw⟩
  · exact .inl rfl
  · exact .inr (Set.mem_biUnion hvu huw)
termination_by config.maxDepth - v.session.depth

theorem finite_meets (config : Config) (file source : String) (s : Session) :
    {w | config.Meets file source s w}.Finite := by
  cases hp : parse file source with
  | error e =>
    refine Set.finite_empty.subset ?_
    rintro w ⟨forms, hforms, -⟩
    cases hp.symm.trans hforms
  | ok forms =>
    have hfirst := (Eval.follows_evalBody .empty .nil forms s).finite_decides config.evaluate
    refine (hfirst.biUnion fun v _ => config.finite_reaches v).subset ?_
    rintro w ⟨forms', hforms, v, hv, hvw⟩
    cases hp.symm.trans hforms
    exact Set.mem_biUnion hv hvw

end Config

/-! The chain of `apply`. -/

namespace Spreads

variable {h : Heap} {args : List Value} {r : Except Cause (Function × List Value)}

theorem eq (hs : Spreads h args r) : r = spread h args := by
  have hrev (leading : List Value) (v : Value) :
      (leading ++ [v]).reverse = v :: leading.reverse := by simp
  induction hs with
  | missing => rw [spread]
  | alone callee => rw [spread]; rfl
  | @unlisted callee leading v hv =>
    rw [spread_cons h callee v (hrev leading v)]
    cases v <;> trivial
  | @uncallable callee leading items hc =>
    rw [spread_cons h callee _ (hrev leading _)]
    cases callee <;> trivial
  | @calls f leading items hf =>
    rw [spread_cons h _ _ (hrev leading _), List.reverse_reverse]
    cases f <;> trivial
  | @again leading items r _ ih =>
    rw [spread_cons h _ _ (hrev leading _), List.reverse_reverse, ih]

end Spreads

theorem spreads (h : Heap) (args : List Value) : Spreads h args (spread h args) := by
  fun_induction spread h args with
  | case1 => exact .missing
  | case2 callee rest hr =>
    rw [List.reverse_eq_nil_iff.1 hr]
    exact .alone callee
  | case3 rest items leading hr args ih =>
    rw [List.reverse_eq_cons_iff.1 hr]
    exact .again ih
  | case4 rest items leading hr args f hf =>
    rw [List.reverse_eq_cons_iff.1 hr]
    exact .calls _ items hf
  | case5 rest items leading hr callee happly hc =>
    rw [List.reverse_eq_cons_iff.1 hr]
    refine .uncallable _ items ?_
    cases callee <;> simp_all [Value.kind]
  | case6 callee rest v leading hv hr =>
    rw [List.reverse_eq_cons_iff.1 hr]
    refine .unlisted callee _ ?_
    cases v <;> simp_all [Value.kind]

theorem spreads_iff {h : Heap} {args : List Value} {r : Except Cause (Function × List Value)} :
    Spreads h args r ↔ r = spread h args := by
  refine ⟨Spreads.eq, ?_⟩
  rintro rfl
  exact spreads h args

theorem Value.weightAll_spread_lt (f : Function) (leading items : List Value) :
    weightAll (leading ++ items) < weightAll (.function f :: (leading ++ [.list items])) := by
  simp only [weightAll, weight, weightAll_append]
  omega

namespace Config

/-- Every source text, in every session and under every limit, runs to one end, with a value or a
failure, and has finitely many forms evaluated on the way. So does every form, and the forms that it
turns to are one level down and within the limit. Between forms, a chain of `apply` ends, its
arguments getting lighter, and so do the walks that write and convert values, whatever tables
contain themselves. -/
theorem runs_end (config : Config) :
    (∀ file source s,
      (∀ r, config.SourceEnds file source s r ↔ r = config.runSource file source s) ∧
      {w | config.Meets file source s w}.Finite) ∧
    (∀ v : Visit,
      (∀ r, config.Ends v r ↔ r = config.run v) ∧
      {w | config.Reaches v w}.Finite ∧
      ∀ w, config.TurnsTo v w →
        w.session.depth = v.session.depth + 1 ∧ w.session.depth ≤ config.maxDepth) ∧
    (∀ h args r, Spreads h args r ↔ r = spread h args) ∧
    (∀ leading items, Value.weightAll (leading ++ items) <
      Value.weightAll (.function .apply :: (leading ++ [.list items]))) ∧
    (∀ (h : Heap) marks v,
      (∃ s, s.text false = h.displayWithin marks v ∧
        ∀ t marks', h.Draws marks [v] [t] marks' ↔ t = s ∧ marks' = marks) ∧
      (∀ r marks', h.Converts marks [v] r marks' ↔
        r = (h.jsonWithin? marks v).map (fun j => [j]) ∧ marks' = marks)) := by
  refine ⟨fun file source s => ⟨fun r => sourceEnds_iff, config.finite_meets file source s⟩,
    fun v => ⟨fun r => ends_iff, config.finite_reaches v, fun w hw => ⟨hw.depth_eq, ?_⟩⟩,
    fun h args r => spreads_iff, Value.weightAll_spread_lt .apply,
    fun h marks v => ⟨?_, fun r marks' => Heap.converts_iff⟩⟩
  · have hlt := hw.1
    have hdepth := hw.depth_eq
    omega
  · obtain ⟨s, hdraws, -⟩ := h.exists_sketch marks v
    have hs := (hdraws s marks).2 ⟨rfl, rfl⟩
    exact ⟨s, hs.text_eq, hdraws⟩

/-- A function that applies its argument to itself, applied to itself, runs into the limit. -/
theorem runs_end_self_application :
    let config : Config := ⟨4, false, .all⟩
    let twice : Value := .function
      (.closure 0 (some "f") [⟨["x"], [.call [.symbol "x", .symbol "x"] ⟨"b", 1, 1⟩]⟩])
    let s : Session := { Session.initial with globals := ⟨[("f", twice)]⟩, fresh := 1 }
    let v : Visit := ⟨.empty, .call [.symbol "f", .symbol "f"] ⟨"a", 1, 1⟩, s⟩
    let w : Visit := ⟨.empty, .symbol "f", v.inside⟩
    config.TurnsTo v w ∧ w.session.depth ≤ 4 ∧
      ∃ e t, e.cause = .overflow 4 ∧ config.SourceEnds "a" "(f f)" s (.error e t) := by
  intro config twice s v w
  have hparse : parse "a" "(f f)" = .ok [v.form] := by cbv
  obtain ⟨e, t, hcause, hrun⟩ : ∃ e t, e.cause = .overflow 4 ∧
      config.runForms [v.form] s = .error e t := ⟨_, _, rfl, rfl⟩
  have hturns : config.TurnsTo v w := by
    refine ⟨by decide, .error (.ofCause .restMarker) v.inside, ?_⟩
    have hfails : v.body config.access (config.evaluate.answering w
        (.error (.ofCause .restMarker) v.inside)) = .error (.ofCause .restMarker) v.inside := by
      change ((_ : Eval Value) >>= _) v.inside = _
      rw [Outcome.bind_apply, Evaluator.answering, if_pos rfl]
      rfl
    obtain ⟨e, t, hcause, hbody⟩ : ∃ e t, e.cause = .overflow 4 ∧
        v.body config.access config.evaluate = .error e t := ⟨_, _, rfl, rfl⟩
    rw [hfails, hbody]
    rintro ⟨⟩
    cases hcause
  obtain ⟨hsource, hform, -⟩ := runs_end config
  refine ⟨hturns, ((hform v).2.2 w hturns).2, e, t, hcause, ((hsource _ _ _).1 _).2 ?_⟩
  rw [runSource, hparse]
  exact hrun.symm

end Config

end Lisplet
