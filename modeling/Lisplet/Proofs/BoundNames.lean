import Lisplet.Proofs.Clauses
import Lisplet.Proofs.Dispatch
import Lisplet.Proofs.Gate

/-!
Names that are bound and read back. Every name can be bound, by a definition, among local names or
as a parameter, as soon as the forms for the values come out. But a name with a leading dot or of
the shape of a path is never looked up: it stands for a member of the host, whatever it is bound to.
Every other name has its value again wherever the binding is in force.
-/

namespace Lisplet

/-! What a name stands for. -/

/-- Slashes stand inside the text, and no two of them together. -/
structure IsPath (cs : List Char) : Prop where
  slash : '/' ∈ cs
  head : cs.head? ≠ some '/'
  last : cs.getLast? ≠ some '/'
  apart : ¬['/', '/'] <:+: cs

/-- The name is looked up when it is evaluated. -/
def IsVariable (name : String) : Prop := name.toList.head? ≠ some '.' ∧ ¬IsPath name.toList

theorem splitPath_slash (cs : List Char) : splitPath ('/' :: cs) = [] :: splitPath cs := rfl

theorem splitPath_plain {c : Char} (hc : c ≠ '/') (cs : List Char) :
    ∃ segment rest, splitPath cs = segment :: rest ∧
      splitPath (c :: cs) = (c :: segment) :: rest := by
  induction cs generalizing c with
  | nil => exact ⟨[], [], rfl, by simp [splitPath, hc]⟩
  | cons d cs ih =>
    by_cases hd : d = '/'
    · subst hd
      exact ⟨[], splitPath cs, rfl, by simp [splitPath, hc]⟩
    · obtain ⟨segment, rest, -, hsplit⟩ := ih hd
      exact ⟨d :: segment, rest, hsplit, by rw [splitPath, if_neg hc, hsplit]⟩

theorem two_le_length_splitPath (cs : List Char) : 2 ≤ (splitPath cs).length ↔ '/' ∈ cs := by
  induction cs with
  | nil => decide
  | cons c cs ih =>
    by_cases hc : c = '/'
    · subst hc
      have hpos : 1 ≤ (splitPath cs).length := by
        rcases cs with _ | ⟨d, cs⟩
        · decide
        · by_cases hd : d = '/'
          · simp [hd, splitPath_slash]
          · obtain ⟨_, _, -, hsplit⟩ := splitPath_plain hd cs
            simp [hsplit]
      simp [splitPath_slash, hpos]
    · obtain ⟨segment, rest, hcs, hsplit⟩ := splitPath_plain hc cs
      rw [hcs] at ih
      rw [hsplit, List.mem_cons, ← ih]
      simp [Ne.symm hc]

theorem splitPath_all (cs : List Char) :
    (∀ segment ∈ splitPath cs, segment ≠ []) ↔
      cs ≠ [] ∧ cs.head? ≠ some '/' ∧ ∀ segment ∈ (splitPath cs).tail, segment ≠ [] := by
  rcases cs with _ | ⟨c, cs⟩
  · simp [splitPath]
  · by_cases hc : c = '/'
    · simp [hc, splitPath_slash]
    · obtain ⟨segment, rest, -, hsplit⟩ := splitPath_plain hc cs
      simp [hsplit, hc]

theorem splitPath_tail_all (cs : List Char) :
    (∀ segment ∈ (splitPath cs).tail, segment ≠ []) ↔
      cs.getLast? ≠ some '/' ∧ ¬['/', '/'] <:+: cs := by
  induction cs with
  | nil => simp [splitPath]
  | cons c cs ih =>
    by_cases hc : c = '/'
    · subst hc
      rw [splitPath_slash, List.tail_cons, splitPath_all, ih]
      rcases cs with _ | ⟨d, cs⟩
      · simp
      · have hslashes : ['/', '/'] <:+: '/' :: d :: cs ↔ d = '/' ∨ ['/', '/'] <:+: d :: cs := by
          rw [List.infix_cons_iff]
          simp [List.cons_prefix_cons, eq_comm]
        rw [hslashes, List.getLast?_cons_cons, List.head?_cons, not_or]
        simp only [ne_eq, reduceCtorEq, not_false_eq_true, true_and, Option.some.injEq]
        tauto
    · obtain ⟨segment, rest, hcs, hsplit⟩ := splitPath_plain hc cs
      rw [hcs, List.tail_cons] at ih
      rw [hsplit, List.tail_cons, ih, List.infix_cons_iff]
      rcases cs with _ | ⟨d, cs⟩
      · simp [hc]
      · simp [List.cons_prefix_cons, Ne.symm hc]

theorem isPath_iff (cs : List Char) :
    IsPath cs ↔ 2 ≤ (splitPath cs).length ∧ (splitPath cs).all (!·.isEmpty) = true := by
  have hall : (splitPath cs).all (!·.isEmpty) = true ↔ ∀ segment ∈ splitPath cs, segment ≠ [] := by
    simp
  rw [hall, splitPath_all, splitPath_tail_all, two_le_length_splitPath]
  constructor
  · rintro ⟨hslash, hhead, hlast, hapart⟩
    exact ⟨hslash, List.ne_nil_of_mem hslash, hhead, hlast, hapart⟩
  · rintro ⟨hslash, -, hhead, hlast, hapart⟩
    exact ⟨hslash, hhead, hlast, hapart⟩

theorem isVariable_iff (name : String) : IsVariable name ↔ Member.ofSymbol? name = none := by
  unfold IsVariable Member.ofSymbol?
  split
  · rename_i h
    simp [h]
  · rename_i h
    simp [h]
  · rename_i hfield hmethod
    have hdot : name.toList.head? ≠ some '.' := by
      intro h
      obtain ⟨cs, hcs⟩ := List.head?_eq_some_iff.1 h
      exact hmethod cs hcs
    simp only [isPath_iff, hdot, ne_eq, not_false_eq_true, true_and]
    split <;> simp_all

namespace Config

variable {config : Config} {w : Visit} {scope : Bindings} {name : String} {v r : Value}
  {s t u : Session}

theorem depth_lt_of_ok {form : Form} (h : config.evaluate scope form t = .ok v u) :
    t.depth < config.maxDepth := by
  by_contra hge
  rw [config.evaluate_of_le scope form (Nat.le_of_not_lt hge)] at h
  cases h

theorem evaluate_variable (h : IsVariable name) (scope : Bindings)
    (ht : t.depth < config.maxDepth) :
    config.evaluate scope (.symbol name) t =
      .ok (((scope.get? name).or (t.globals.get? name)).getD .nil) t := by
  rw [config.evaluate_of_lt scope (.symbol name) ht]
  simp only [Eval.framed, Eval.step, Eval.evalSymbol, (isVariable_iff name).1 h, Eval.lookUp]
  rw [Option.orElse_eq_or]
  rfl

/-- A name that is not looked up makes a new function, whatever it is bound to. -/
theorem evaluate_member (h : ¬IsVariable name) :
    ∃ m, ∀ (scope : Bindings) (t : Session), t.depth < config.maxDepth →
      config.evaluate scope (.symbol name) t =
        .ok (.function (.member t.fresh m)) { t with fresh := t.fresh + 1 } := by
  rw [isVariable_iff, ← ne_eq, Option.ne_none_iff_exists'] at h
  obtain ⟨m, hm⟩ := h
  refine ⟨m, fun scope t ht => ?_⟩
  rw [config.evaluate_of_lt scope (.symbol name) ht]
  simp only [Eval.framed, Eval.step, Eval.evalSymbol, hm]
  rfl

/-- The name has the value in every scope that does not bind it, as long as the global of that name
is the one after the session. -/
def ReadsGlobally (config : Config) (s : Session) (name : String) (v : Value) : Prop :=
  ∀ (inner : Bindings) (t : Session), inner.get? name = none →
    t.globals.get? name = s.globals.get? name → t.depth < config.maxDepth →
    config.evaluate inner (.symbol name) t = .ok v t

/-- The name has the value in the scope and in every scope inside that does not bind it again. -/
def ReadsLocally (config : Config) (scope : Bindings) (name : String) (v : Value) : Prop :=
  ∀ (inner : Bindings) (t : Session), inner.get? name = scope.get? name →
    t.depth < config.maxDepth → config.evaluate inner (.symbol name) t = .ok v t

theorem readsGlobally (h : IsVariable name) (hv : s.globals.get? name = some v) :
    config.ReadsGlobally s name v := by
  intro inner t hinner hglobal ht
  rw [evaluate_variable h inner ht, hinner, hglobal, hv]
  rfl

theorem readsLocally (h : IsVariable name) (hv : scope.get? name = some v) :
    config.ReadsLocally scope name v := by
  intro inner t hinner ht
  rw [evaluate_variable h inner ht, hinner, hv]
  rfl

/-- The value of a sequence of forms is that of the last. -/
theorem ReadsLocally.eq_of_last (h : config.ReadsLocally scope name v) {body : List Form}
    (hlast : body.getLast? = some (.symbol name)) {last : Value}
    (hrun : Eval.evalBody config.evaluate scope last body s = .ok r t) : r = v := by
  induction body generalizing last s with
  | nil => cases hlast
  | cons form body ih =>
    obtain ⟨a, s', hform, hrest⟩ := Outcome.bind_eq_ok hrun
    rcases body with _ | ⟨form', body⟩
    · obtain rfl : form = .symbol name := by simpa using hlast
      cases hrest
      rw [h scope s rfl (depth_lt_of_ok hform)] at hform
      cases hform
      rfl
    · rw [List.getLast?_cons_cons] at hlast
      exact ih hlast hrest

/-! Calls of special forms. -/

/-- The call at the visit is that of a special form with these operands. -/
def Opens (config : Config) (w : Visit) (special : SpecialForm) (operands : List Form)
    (t : Session) : Prop :=
  ∃ head l, w.form = .call (head :: operands) l ∧
    config.evaluate w.scope head w.inside = .ok (.function (.special special)) t

theorem Opens.body_eq {special : SpecialForm} {operands : List Form}
    (h : config.Opens w special operands t) :
    w.body config.access config.evaluate =
      Eval.callSpecial config.evaluate w.scope operands special t := by
  obtain ⟨head, l, hform, hhead⟩ := h
  unfold Visit.body
  rw [hform]
  exact Outcome.bind_of_ok hhead _

theorem body_of_run_ok (h : config.run w = .ok r u) :
    ∃ t, w.body config.access config.evaluate = .ok r t ∧ u = t.leave w.form := by
  have hlt := depth_lt_of_ok h
  rcases hb : w.body config.access config.evaluate with ⟨a, t⟩ | ⟨e, t⟩
  · rw [run_of_body_ok hlt hb] at h
    cases h
    exact ⟨t, rfl, rfl⟩
  · rw [run_of_body_error hlt hb] at h
    cases h

theorem Opens.run_eq {special : SpecialForm} {operands : List Form}
    (h : config.Opens w special operands s)
    (hcall : Eval.callSpecial config.evaluate w.scope operands special s = .ok r t) :
    config.run w = .ok r (t.withFrames w.session) := by
  have hroom : w.session.depth < config.maxDepth := by
    obtain ⟨head, l, -, hhead⟩ := h
    have hlt := depth_lt_of_ok hhead
    rw [w.inside_depth] at hlt
    exact Nat.lt_of_succ_lt hlt
  exact run_withFrames_of_body_ok hroom (h.body_eq.trans hcall)

/-! Definitions. -/

/-- The call comes out and binds the name, whatever it is. If the name is looked up, it then has the
value. -/
structure Defines (config : Config) (w : Visit) (name : String) (v : Value) (t : Session) :
    Prop where
  run_eq : config.run w =
    .ok .nil ({ t with globals := t.globals.insert name v }.withFrames w.session)
  reads : IsVariable name →
    config.ReadsGlobally { t with globals := t.globals.insert name v } name v

theorem Opens.defines {special : SpecialForm} {operands : List Form}
    (h : config.Opens w special operands s)
    (hcall : Eval.callSpecial config.evaluate w.scope operands special s =
      .ok .nil { t with globals := t.globals.insert name v }) : config.Defines w name v t := by
  refine ⟨h.run_eq hcall, fun hname => readsGlobally hname ?_⟩
  rw [Bindings.get?_insert, if_pos rfl]

theorem defines_of_define {form : Form} (h : config.Opens w .define [.symbol name, form] s)
    (hv : config.evaluate .empty form s = .ok v t) : config.Defines w name v t := by
  refine h.defines ?_
  have hnamed : Eval.bindingName .define (.symbol name) s = .ok name s := rfl
  exact (Outcome.bind_of_ok hnamed _).trans (Outcome.bind_of_ok hv _)

theorem defines_of_defineFunction {operands : List Form} {variants : List Variant}
    (h : config.Opens w .defineFunction (.symbol name :: operands) s)
    (hvariants : Variant.AllWritten operands variants) :
    config.Defines w name (.function (.closure s.fresh (some name) variants))
      { s with fresh := s.fresh + 1 } := by
  refine h.defines ?_
  have hnamed : Eval.bindingName .defineFunction (.symbol name) s = .ok name s := rfl
  exact (Outcome.bind_of_ok hnamed _).trans
    (Outcome.bind_of_ok (congrFun (Eval.functionVariants_of_written _ hvariants) s) _)

/-! Local names. -/

/-- The names come with the values of the forms next to them, each evaluated in the scope outside
and in the session that the one before has left. -/
inductive Valued (config : Config) (scope : Bindings) :
    Session → List Form → List (String × Value) → Session → Prop
  | nil (s : Session) : Valued config scope s [] [] s
  | cons {s t u : Session} {form : Form} {v : Value} {items : List Form}
      {bound : List (String × Value)} (name : String) (hv : config.evaluate scope form s = .ok v t)
      (h : Valued config scope t items bound u) :
      Valued config scope s (.symbol name :: form :: items) ((name, v) :: bound) u

theorem Valued.evalBindings_eq {items : List Form} {bound : List (String × Value)}
    (h : config.Valued scope s items bound t) :
    Eval.evalBindings config.evaluate scope items s = .ok bound t := by
  induction h with
  | nil => rfl
  | cons name hv _ ih => exact (Outcome.bind_of_ok hv _).trans (Outcome.bind_of_ok ih _)

theorem Valued.even {items : List Form} {bound : List (String × Value)}
    (h : config.Valued scope s items bound t) : items.length % 2 = 0 := by
  induction h with
  | nil => rfl
  | cons name hv _ ih =>
    simp only [List.length_cons]
    omega

theorem valued_of_evalBindings {items : List Form} {bound : List (String × Value)}
    (heven : items.length % 2 = 0)
    (h : Eval.evalBindings config.evaluate scope items s = .ok bound t) :
    config.Valued scope s items bound t := by
  induction items using List.twoStepInduction generalizing s bound with
  | nil =>
    cases h
    exact .nil _
  | singleton form => cases heven
  | cons_cons first form items ih _ =>
    simp only [List.length_cons] at heven
    rcases first with _ | name | _ | _ | _ | _
    case symbol =>
      obtain ⟨v, u, hv, hrest⟩ := Outcome.bind_eq_ok h
      obtain ⟨more, u', hmore, hend⟩ := Outcome.bind_eq_ok hrest
      cases hend
      exact .cons name hv (ih (by omega) hmore)
    all_goals cases h

/-- The names are bound on top of the scope of the visit, whatever they are, and the body is
evaluated there. A name that is looked up has the last value bound to it, which is that of the whole
if the name comes last. -/
structure BindsInside (config : Config) (w : Visit) (bound : List (String × Value)) (last : Value)
    (body : List Form) (t : Session) : Prop where
  body_eq : w.body config.access config.evaluate =
    Eval.evalBody config.evaluate (w.scope.layer bound) last body t
  binds : ∀ name ∈ bound.map Prod.fst, ∃ v, Bindings.find bound.reverse name = some v ∧
    (w.scope.layer bound).get? name = some v ∧
    (IsVariable name → config.ReadsLocally (w.scope.layer bound) name v ∧
      (body.getLast? = some (.symbol name) → ∀ r u, config.run w = .ok r u → r = v))

theorem bindsInside {bound : List (String × Value)} {last : Value} {body : List Form}
    (hbody : w.body config.access config.evaluate =
      Eval.evalBody config.evaluate (w.scope.layer bound) last body t) :
    config.BindsInside w bound last body t := by
  refine ⟨hbody, fun name hname => ?_⟩
  obtain ⟨v, hv⟩ : ∃ v, Bindings.find bound.reverse name = some v := by
    rw [← Option.isSome_iff_exists, Bindings.find_isSome]
    simpa using hname
  have hget : (w.scope.layer bound).get? name = some v := by
    rw [w.scope.get?_layer, hv]
    rfl
  refine ⟨v, hv, hget, fun h => ⟨readsLocally h hget, fun hlast r u hrun => ?_⟩⟩
  obtain ⟨t', hend, -⟩ := body_of_run_ok hrun
  exact (readsLocally h hget).eq_of_last hlast (hbody ▸ hend)

theorem bindsInside_of_binding {items body : List Form} {bound : List (String × Value)}
    (h : config.Opens w .binding (.vector items :: body) s)
    (hvalued : config.Valued w.scope s items bound t) : config.BindsInside w bound .nil body t := by
  refine bindsInside (h.body_eq.trans ?_)
  have hodd : ¬items.length % 2 = 1 := by
    rw [hvalued.even]
    decide
  simp only [Eval.callSpecial, Eval.evalLet]
  rw [if_neg hodd]
  exact Outcome.bind_of_ok hvalued.evalBindings_eq _

end Config

/-- Every parameter but the marker is bound. -/
theorem Params.subset_names {params : List String} {args : List Value}
    {bound : List (String × Value)} (h : bind? params args = .ok (some bound)) {name : String}
    (hname : name ∈ params) (hne : name ≠ restMarker) : name ∈ bound.map Prod.fst := by
  have hnot : ¬Malformed params := by
    intro hmal
    cases (bind?_of_malformed hmal args).symm.trans h
  have htakes : Takes params args.length := by
    by_contra hno
    cases (bind?_of_not_takes hnot hno).symm.trans h
  rcases bind?_of_takes hnot htakes with ⟨-, hlength, hbound⟩ |
    ⟨leading, rest, trailing, front, middle, back, rfl, -, hfront, hback, hbound⟩
  · cases hbound.symm.trans h
    rwa [List.map_fst_zip hlength.le]
  · cases hbound.symm.trans h
    simp only [List.map_append, List.map_fst_zip hfront.ge, List.map_fst_zip hback.ge]
    simp only [List.mem_append, List.mem_cons, hne, false_or] at hname
    simp only [List.map_cons, List.map_nil, List.mem_append, List.mem_singleton]
    tauto

namespace Config

variable {config : Config} {w : Visit} {scope : Bindings} {r : Value} {s u : Session}

theorem bindsInside_of_call {id : Nat} {self : Option String} {variants : List Variant}
    {args : List Value} {variant : Variant}
    (h : config.Applies w (.closure id self variants) args s)
    (hfirst : Variant.first? args.length variants = some variant)
    (hnot : ¬Params.Malformed variant.params) :
    ∃ bound, Params.bind? variant.params args = .ok (some bound) ∧
      config.BindsInside w bound (.list []) variant.body s := by
  obtain ⟨bound, hbound, hcall⟩ :=
    Eval.callVariants_takes config.evaluate w.scope self hfirst hnot
  refine ⟨bound, hbound, bindsInside ?_⟩
  rw [h.body_eq, Eval.evalBody_eq_foldlM]
  exact congrFun hcall s

/-! What is accepted. -/

/-- The operands with which the forms that bind names come to bind them. -/
inductive Accepts (config : Config) (scope : Bindings) (s : Session) :
    SpecialForm → List Form → Prop
  | define (name : String) : Accepts config scope s .define [.symbol name]
  | defineAs (name : String) {form : Form} {v : Value} {t : Session}
      (hv : config.evaluate .empty form s = .ok v t) :
      Accepts config scope s .define [.symbol name, form]
  | defineFunction (name : String) {operands : List Form} {variants : List Variant}
      (h : Variant.AllWritten operands variants) :
      Accepts config scope s .defineFunction (.symbol name :: operands)
  | lambda {operands : List Form} {variants : List Variant}
      (h : Variant.AllWritten operands variants) : Accepts config scope s .lambda operands
  | binding {items : List Form} (body : List Form) {bound : List (String × Value)} {t : Session}
      (h : config.Valued scope s items bound t) :
      Accepts config scope s .binding (.vector items :: body)

theorem symbol_of_bindingName {special : SpecialForm} {form : Form} {name : String}
    (h : Eval.bindingName special form s = .ok name u) : form = .symbol name ∧ u = s := by
  rcases form with _ | _ | _ | _ | _ | _
  case symbol =>
    cases h
    exact ⟨rfl, rfl⟩
  all_goals cases h

theorem accepts_define {operands : List Form}
    (h : Eval.evalDefine config.evaluate operands s = .ok r u) :
    config.Accepts scope s .define operands := by
  rcases operands with _ | ⟨first, _ | ⟨form, _ | _⟩⟩
  · cases h
  · obtain ⟨name, _, hname, -⟩ := Outcome.bind_eq_ok h
    obtain ⟨rfl, -⟩ := symbol_of_bindingName hname
    exact .define name
  · obtain ⟨name, _, hname, hrest⟩ := Outcome.bind_eq_ok h
    obtain ⟨rfl, rfl⟩ := symbol_of_bindingName hname
    obtain ⟨v, t, hv, -⟩ := Outcome.bind_eq_ok hrest
    exact .defineAs name hv
  · cases h

theorem accepts_defineFunction {operands : List Form}
    (h : Eval.evalDefineFunction operands s = .ok r u) :
    config.Accepts scope s .defineFunction operands := by
  rcases operands with _ | ⟨first, operands⟩
  · cases h
  · obtain ⟨name, _, hname, hrest⟩ := Outcome.bind_eq_ok h
    obtain ⟨rfl, rfl⟩ := symbol_of_bindingName hname
    obtain ⟨variants, t, hvariants, -⟩ := Outcome.bind_eq_ok hrest
    exact .defineFunction name (Eval.written_of_functionVariants hvariants)

theorem accepts_binding {operands : List Form}
    (h : Eval.evalLet config.evaluate scope operands s = .ok r u) :
    config.Accepts scope s .binding operands := by
  rcases operands with _ | ⟨first, body⟩
  · cases h
  · rcases first with _ | _ | _ | _ | items | _
    case vector =>
      rw [Eval.evalLet] at h
      split at h
      · cases h
      · rename_i hodd
        obtain ⟨bound, t, hbound, -⟩ := Outcome.bind_eq_ok h
        exact .binding body (valued_of_evalBindings (by omega) hbound)
    all_goals cases h

theorem accepts_of_run_ok {special : SpecialForm} {operands : List Form}
    (hspecial : special ∈ [.define, .defineFunction, .lambda, .binding])
    (h : config.Opens w special operands s) (hrun : config.run w = .ok r u) :
    config.Accepts w.scope s special operands := by
  obtain ⟨t, hbody, -⟩ := body_of_run_ok hrun
  rw [h.body_eq] at hbody
  simp only [List.mem_cons, List.not_mem_nil, or_false] at hspecial
  rcases hspecial with rfl | rfl | rfl | rfl
  · exact accepts_define hbody
  · exact accepts_defineFunction hbody
  · obtain ⟨variants, t', hvariants, -⟩ := Outcome.bind_eq_ok hbody
    exact .lambda (Eval.written_of_functionVariants hvariants)
  · exact accepts_binding hbody

theorem exists_first_of_run_ok {id : Nat} {self : Option String} {variants : List Variant}
    {args : List Value} (h : config.Applies w (.closure id self variants) args s)
    (hrun : config.run w = .ok r u) :
    ∃ variant, Variant.first? args.length variants = some variant ∧
      ¬Params.Malformed variant.params := by
  obtain ⟨t, hbody, -⟩ := body_of_run_ok hrun
  rw [h.body_eq] at hbody
  change Eval.callVariants config.evaluate w.scope self args variants s = _ at hbody
  rcases hfirst : Variant.first? args.length variants with _ | variant
  · rw [Eval.callVariants_unmatched _ _ _ hfirst] at hbody
    cases hbody
  · refine ⟨variant, rfl, fun hmal => ?_⟩
    rw [Eval.callVariants_malformed _ _ _ hfirst hmal] at hbody
    cases hbody

/-- Every name can be bound: by a definition as soon as the form for its value comes out, by the
definition of a function, among local names as soon as the forms for their values come out, and as a
parameter. Nothing else is accepted by these forms. A name that is looked up has its value again
wherever the binding is in force: after a definition in every scope that does not bind it, among
local names in the body, and as a parameter in the body of the function. Any other name makes a new
member of the host each time, whatever it is bound to. -/
theorem bound_names_read_back (config : Config) :
    (∀ w name s, config.Opens w .define [.symbol name] s → config.Defines w name .nil s) ∧
    (∀ w name form s v t, config.Opens w .define [.symbol name, form] s →
      config.evaluate .empty form s = .ok v t → config.Defines w name v t) ∧
    (∀ w name operands s variants, config.Opens w .defineFunction (.symbol name :: operands) s →
      Variant.AllWritten operands variants →
      config.Defines w name (.function (.closure s.fresh (some name) variants))
        { s with fresh := s.fresh + 1 }) ∧
    (∀ w items body s bound t, config.Opens w .binding (.vector items :: body) s →
      config.Valued w.scope s items bound t → config.BindsInside w bound .nil body t) ∧
    (∀ w operands s variants, config.Opens w .lambda operands s →
      Variant.AllWritten operands variants →
      config.run w = .ok (.function (.closure s.fresh none variants))
        ({ s with fresh := s.fresh + 1 }.withFrames w.session)) ∧
    (∀ w id self variants args s variant, config.Applies w (.closure id self variants) args s →
      Variant.first? args.length variants = some variant → ¬Params.Malformed variant.params →
      ∃ bound, Params.bind? variant.params args = .ok (some bound) ∧
        (∀ name ∈ variant.params, name ≠ Params.restMarker → name ∈ bound.map Prod.fst) ∧
        config.BindsInside w bound (.list []) variant.body s) ∧
    (∀ w special operands s r u, special ∈ [.define, .defineFunction, .lambda, .binding] →
      config.Opens w special operands s → config.run w = .ok r u →
      config.Accepts w.scope s special operands) ∧
    (∀ w id self variants args s r u, config.Applies w (.closure id self variants) args s →
      config.run w = .ok r u → ∃ variant, Variant.first? args.length variants = some variant ∧
        ¬Params.Malformed variant.params) ∧
    (∀ name, ¬IsVariable name → ∃ m, ∀ (scope : Bindings) (t : Session),
      t.depth < config.maxDepth → config.evaluate scope (.symbol name) t =
        .ok (.function (.member t.fresh m)) { t with fresh := t.fresh + 1 }) := by
  refine ⟨fun w name s h => h.defines rfl, fun w name form s v t => defines_of_define,
    fun w name operands s variants => defines_of_defineFunction,
    fun w items body s bound t => bindsInside_of_binding,
    fun w operands s variants h hwritten => ?_,
    fun w id self variants args s variant h hfirst hnot => ?_,
    fun w special operands s r u => accepts_of_run_ok,
    fun w id self variants args s r u => exists_first_of_run_ok, fun name => evaluate_member⟩
  · exact h.run_eq (Outcome.bind_of_ok (congrFun (Eval.functionVariants_of_written _ hwritten) s) _)
  · obtain ⟨bound, hbound, hinside⟩ := bindsInside_of_call h hfirst hnot
    exact ⟨bound, hbound, fun name hname hne => Params.subset_names hbound hname hne, hinside⟩

/-- `(def a/ true)` and `(let [a/b nil a/ true] a/)`: a slash at the end makes no path. The path is
bound as well, also as the parameter of `((fn [a/b] a/b) true)`, and not read. -/
theorem bound_names_read_back_slash :
    let config : Config := ⟨9, false, .all⟩
    let s : Session := { Session.initial with
      globals := ⟨[("def", .function (.special .define)), ("let", .function (.special .binding)),
        ("f", .function (.closure 0 none [⟨["a/b"], [.symbol "a/b"]⟩]))]⟩ }
    let defines (name : String) : Visit :=
      ⟨.empty, .call [.symbol "def", .symbol name, .atom (.bool true)] ⟨"a", 1, 1⟩, s⟩
    let binds : Visit := ⟨.empty, .call [.symbol "let",
      .vector [.symbol "a/b", .atom .nil, .symbol "a/", .atom (.bool true)], .symbol "a/"]
      ⟨"a", 1, 1⟩, s⟩
    let calls : Visit := ⟨.empty, .call [.symbol "f", .atom (.bool true)] ⟨"a", 1, 1⟩, s⟩
    IsVariable "a/" ∧ ¬IsVariable "a/b" ∧
      (∀ name, ∃ u, config.run (defines name) = .ok .nil u ∧
        u.globals.get? name = some (.bool true)) ∧
      (∃ u, config.run (defines "a/") = .ok .nil u ∧
        config.evaluate .empty (.symbol "a/") u = .ok (.bool true) u) ∧
      (config.run binds = .ok (.bool true) s ∧
        config.Valued .empty binds.inside [.symbol "a/b", .atom .nil, .symbol "a/",
          .atom (.bool true)] [("a/b", .nil), ("a/", .bool true)] binds.inside) ∧
      ∃ inside m, calls.body config.access config.evaluate =
          Eval.evalBody config.evaluate inside (.list []) [.symbol "a/b"] calls.inside ∧
        inside.get? "a/b" = some (.bool true) ∧
        config.evaluate inside (.symbol "a/b") calls.inside =
          .ok (.function (.member 0 m)) { calls.inside with fresh := 1 } := by
  intro config s defines binds calls
  obtain ⟨-, hdefine, -, hlet, -, hcall, -, -, hmember⟩ := bound_names_read_back config
  have hname : IsVariable "a/" := (isVariable_iff _).2 (by decide)
  have hpath : ¬IsVariable "a/b" := by
    rw [isVariable_iff]
    decide
  have hdefines (name : String) :
      config.Defines (defines name) name (.bool true) (defines name).inside :=
    hdefine _ _ _ _ _ _ ⟨_, _, rfl, rfl⟩ rfl
  have hvalued : config.Valued .empty binds.inside [.symbol "a/b", .atom .nil, .symbol "a/",
      .atom (.bool true)] [("a/b", .nil), ("a/", .bool true)] binds.inside :=
    .cons _ rfl (.cons _ rfl (.nil _))
  have hbinds := hlet binds _ _ _ _ _ ⟨_, _, rfl, rfl⟩ hvalued
  obtain ⟨_, -, -, hreads⟩ := hbinds.binds "a/" (by simp)
  have hrun : config.run binds = .ok (.bool true) s := rfl
  obtain rfl := (hreads hname).2 rfl _ _ hrun
  obtain ⟨bound, hbound, -, hinside⟩ := hcall calls _ _ _ _ _ _
    (.call (by decide) rfl rfl rfl rfl) rfl (by decide)
  cases hbound
  obtain ⟨m, hm⟩ := hmember _ hpath
  refine ⟨hname, hpath, fun name => ⟨_, (hdefines name).run_eq, ?_⟩,
    ⟨_, (hdefines "a/").run_eq, (hdefines "a/").reads hname .empty _ rfl rfl (by decide)⟩,
    ⟨hrun, hvalued⟩, _, m, hinside.body_eq, rfl, hm _ _ (by decide)⟩
  exact (Bindings.get?_insert _ _ _ _).trans (if_pos rfl)

/-- A name of the shape of a path is accepted and bound, and evaluates to a member even so. -/
theorem path_not_read_back :
    let config : Config := ⟨9, false, .all⟩
    let s : Session := { Session.initial with
      globals := ⟨[("def", .function (.special .define))]⟩ }
    let defines : Form := .call [.symbol "def", .symbol "a/b", .atom (.number 1)] ⟨"a", 1, 1⟩
    ∃ t, config.evaluate .empty defines s = .ok .nil t ∧
      t.globals.get? "a/b" = some (.number 1) ∧
      config.evaluate .empty (.symbol "a/b") t =
        .ok (.function (.member 0 (.global ["a", "b"]))) { t with fresh := 1 } := by
  intro config s defines
  exact ⟨_, rfl, rfl, rfl⟩

end Config

end Lisplet
