import Lisplet.Proofs.Definitions
import Lisplet.Proofs.Settling
import Mathlib

/-!
Standard names. A program may define and bind what it likes; as long as some names still mean what
they mean at the start, calls by these names reach the functions of the prelude, the primitives and
the special forms, and each such call settles as its function does. What a function called so has
bound is seen by the functions it calls, so scopes are compared up to the names in between.
-/

namespace Lisplet

namespace Bindings

/-- The scopes agree except on these names. -/
def SameBut (names : List String) (b b' : Bindings) : Prop :=
  ∀ name, name ∉ names → b'.get? name = b.get? name

theorem SameBut.refl (names : List String) (b : Bindings) : b.SameBut names b := fun _ _ => rfl

theorem SameBut.trans {names : List String} {b b' b'' : Bindings} (h : b.SameBut names b')
    (h' : b'.SameBut names b'') : b.SameBut names b'' :=
  fun name hname => (h' name hname).trans (h name hname)

theorem SameBut.mono {names more : List String} {b b' : Bindings} (h : b.SameBut names b')
    (hsub : names ⊆ more) : b.SameBut more b' :=
  fun name hname => h name fun hmem => hname (hsub hmem)

theorem find_eq_none_iff {entries : List (String × Value)} {name : String} :
    find entries name = none ↔ name ∉ entries.map Prod.fst := by
  induction entries with
  | nil => simp [find]
  | cons e entries ih =>
    rw [List.map_cons, List.mem_cons, not_or, ← ih, find]
    by_cases he : e.1 = name
    · simp [he]
    · simp [he, Ne.symm he]

theorem get?_layer_of_not_mem {b : Bindings} {more : List (String × Value)} {name : String}
    (h : name ∉ more.map Prod.fst) : (b.layer more).get? name = b.get? name := by
  rw [get?_layer, find_eq_none_iff.2 (by simpa using h), Option.none_or]

theorem sameBut_layer {names : List String} {b : Bindings} {more : List (String × Value)}
    (h : more.map Prod.fst ⊆ names) : b.SameBut names (b.layer more) :=
  fun _ hname => get?_layer_of_not_mem fun hmem => hname (h hmem)

theorem find_append (entries more : List (String × Value)) (name : String) :
    find (entries ++ more) name = (find entries name).or (find more name) := by
  induction entries with
  | nil => rfl
  | cons e entries ih =>
    rw [List.cons_append, find, find, ih]
    split <;> rfl

end Bindings

/-! What the names mean at the start. -/

namespace Prelude

/-- The variants of the function that definitions give a name. -/
def variantsIn (ds : List Definition) (name : String) : List Variant :=
  match ds with
  | [] => []
  | d :: ds => if d.name = name then d.variants else variantsIn ds name

theorem exists_of_variantsIn_ne_nil {ds : List Definition} {name : String}
    (h : variantsIn ds name ≠ []) :
    ∃ d ∈ ds, d.name = name ∧ d.variants = variantsIn ds name := by
  induction ds with
  | nil => exact absurd rfl h
  | cons d ds ih =>
    rw [variantsIn] at h ⊢
    split
    · exact ⟨d, List.mem_cons_self, ‹_›, rfl⟩
    · rw [if_neg ‹_›] at h
      obtain ⟨e, he, hname, hvariants⟩ := ih h
      exact ⟨e, List.mem_cons_of_mem d he, hname, hvariants⟩

theorem map_fst_functions (id : Nat) (ds : List Definition) :
    (functions id ds).map Prod.fst = ds.map Definition.name := by
  induction ds generalizing id with
  | nil => rfl
  | cons d ds ih => rw [functions, List.map_cons, List.map_cons, ih]

/-- Of definitions with different names each is there in the end. -/
theorem find_functions {d : Definition} {ds : List Definition} (hd : d ∈ ds)
    (hnames : (ds.map Definition.name).Nodup) (id : Nat) :
    ∃ id', Bindings.find (functions id ds).reverse d.name = some (d.function id') := by
  induction ds generalizing id with
  | nil => cases hd
  | cons e ds ih =>
    rw [List.map_cons, List.nodup_cons] at hnames
    rw [functions, List.reverse_cons]
    rcases List.mem_cons.1 hd with rfl | hd
    · have hnone : d.name ∉ ((functions (id + 1) ds).reverse).map Prod.fst := by
        rw [List.map_reverse, List.mem_reverse, map_fst_functions]
        exact hnames.1
      refine ⟨id, ?_⟩
      rw [Bindings.find_append, Bindings.find_eq_none_iff.2 hnone]
      simp [Bindings.find]
    · obtain ⟨id', hfind⟩ := ih hd hnames.2 (id + 1)
      exact ⟨id', by rw [Bindings.find_append, hfind, Option.some_or]⟩

/-- The variants of the function of the prelude with this name. -/
def variants (name : String) : List Variant := variantsIn definitions name

theorem nodup_names : (definitions.map Definition.name).Nodup := by decide

theorem ofSymbol?_name {d : Definition} (hd : d ∈ definitions) :
    Member.ofSymbol? d.name = none := by
  have hall : ∀ name ∈ definitions.map Definition.name, Member.ofSymbol? name = none := by decide
  exact hall _ (List.mem_map_of_mem hd)

/-- A name that the session that programs start in binds, and that is a variable. -/
structure Binds (name : String) (v : Value) : Prop where
  plain : Member.ofSymbol? name = none
  bound : session.globals.get? name = some v

theorem binds_defined {name : String} (h : variants name ≠ []) :
    ∃ id, Binds name (.function (.closure id (some name) (variants name))) := by
  obtain ⟨d, hd, rfl, hvariants⟩ := exists_of_variantsIn_ne_nil h
  obtain ⟨id, hfind⟩ := find_functions hd nodup_names 0
  refine ⟨id, ofSymbol?_name hd, ?_⟩
  rw [session, Bindings.get?_layer, hfind, Definition.function, hvariants]
  rfl

theorem binds_builtin {name : String} {v : Value} (hname : Member.ofSymbol? name = none)
    (hfree : name ∉ definitions.map Definition.name)
    (hv : Bindings.find builtins.reverse name = some v) : Binds name v := by
  refine ⟨hname, ?_⟩
  have hnone : name ∉ (functions 0 definitions).map Prod.fst := by rwa [map_fst_functions]
  rw [session, Bindings.get?_layer_of_not_mem hnone, Bindings.get?_layer, hv, Option.some_or]

theorem binds_primitive (op : Primitive) : Binds op.name (.function (.primitive op)) := by
  cases op <;> exact binds_builtin rfl (by decide) rfl

theorem binds_special (form : SpecialForm) : Binds form.name (.function (.special form)) := by
  cases form <;> exact binds_builtin rfl (by decide) rfl

theorem binds_apply : Binds "apply" (.function .apply) := binds_builtin rfl (by decide) rfl

/-- A call of a function of the prelude on values. -/
def run (config : Config) (scope : Bindings) (name : String) (args : List Value) : Eval Value :=
  Eval.callVariants config.evaluate scope (some name) args (variants name)

end Prelude

namespace Config

/-- With the prelude, the names mean what they mean in the session that programs start in: they have
not been defined anew, and the scope does not hide them. -/
structure Standard (config : Config) (names : List String) (scope : Bindings) (s : Session) :
    Prop where
  prelude : config.prelude = true
  started : ∃ start, config.start = .ok start ∧
    ∀ name ∈ names, s.globals.get? name = start.globals.get? name
  unhidden : ∀ name ∈ names, scope.get? name = none

variable {config : Config} {s : Session} {levels : Nat} {scope : Bindings} {names : List String}

theorem standard_session (hp : config.prelude = true) (hroom : 2 ≤ config.maxDepth)
    (names : List String) : config.Standard names .empty Prelude.session :=
  ⟨hp, ⟨_, start_eq hp hroom, fun _ _ => rfl⟩, fun _ _ => rfl⟩

namespace Standard

theorem subset {fewer : List String} (h : config.Standard names scope s) (hsub : fewer ⊆ names) :
    config.Standard fewer scope s := by
  obtain ⟨hp, ⟨start, hstart, hsame⟩, hnone⟩ := h
  exact ⟨hp, ⟨start, hstart, fun name hname => hsame name (hsub hname)⟩,
    fun name hname => hnone name (hsub hname)⟩

theorem sameBut (h : config.Standard names scope s) {others : List String} {scope' : Bindings}
    (hscope : scope.SameBut others scope') (hothers : ∀ name ∈ others, name ∉ names) :
    config.Standard names scope' s := by
  refine ⟨h.prelude, h.started, fun name hname => ?_⟩
  rw [hscope name fun hmem => hothers name hmem hname]
  exact h.unhidden name hname

theorem settles_symbol (h : config.Standard names scope s) {name : String} {v : Value}
    (hname : name ∈ names) (hv : Prelude.Binds name v) :
    config.Settles s (levels + 1) (config.evaluate scope (.symbol name)) (· = .ok v) := by
  obtain ⟨hp, ⟨start, hstart, hsame⟩, hnone⟩ := h
  refine settles_variable hv.plain ?_
  rw [hnone name hname, Option.none_or, hsame name hname, eq_session_of_start hp hstart, hv.bound]

/-- A call by the name of a function. -/
theorem settles_named (h : config.Standard names scope s) {name : String} {f : Function}
    {operands : List Form} {l : Location} {A : Except Cause (List Value) → Prop}
    {P : Except Cause Value → Prop} (hname : name ∈ names)
    (hf : Prelude.Binds name (.function f)) (hspecial : f.isSpecial = false)
    (hargs : config.Settles s (levels + 1) (Eval.evalAll config.evaluate scope operands) A)
    (happly : ∀ args, A (.ok args) → config.Settles s (levels + 1)
      (Eval.applyFunction config.access config.evaluate scope args f) P)
    (herror : ∀ cause, A (.error cause) → P (.error cause)) :
    config.Settles s (levels + 2) (config.evaluate scope (.call (.symbol name :: operands) l)) P :=
  settles_call (F := (· = f))
    ((h.settles_symbol hname hf).mono (Nat.le_refl _) fun _ hr => ⟨f, hr, hspecial, rfl⟩) hargs
    (by rintro _ args rfl; exact happly args) herror

/-- A call of a primitive on values that are found without failure. -/
theorem settles_op (h : config.Standard names scope s) (op : Primitive) (args : List Value)
    {operands : List Form} {l : Location} {r : Except Cause Value} (hop : op.name ∈ names)
    (hargs : config.Settles s (levels + 1) (Eval.evalAll config.evaluate scope operands)
      (· = .ok args))
    (hcall : ∀ heap, op.plan heap args = Effect.give <$> r) :
    config.Settles s (levels + 2) (config.evaluate scope (.call (.symbol op.name :: operands) l))
      (· = r) := by
  refine h.settles_named hop (Prelude.binds_primitive op) rfl hargs ?_ ?_
  · rintro _ ⟨⟩
    exact settles_primitive hcall
  · rintro cause ⟨⟩

/-- A call of a function of the prelude. -/
theorem settles_defined (h : config.Standard names scope s) (name : String) {operands : List Form}
    {l : Location} {A : Except Cause (List Value) → Prop} {P : Except Cause Value → Prop}
    (hname : name ∈ names) (hdefined : Prelude.variants name ≠ [])
    (hargs : config.Settles s (levels + 1) (Eval.evalAll config.evaluate scope operands) A)
    (hrun : ∀ args, A (.ok args) →
      config.Settles s (levels + 1) (Prelude.run config scope name args) P)
    (herror : ∀ cause, A (.error cause) → P (.error cause)) :
    config.Settles s (levels + 2) (config.evaluate scope (.call (.symbol name :: operands) l))
      P := by
  obtain ⟨id, hbinds⟩ := Prelude.binds_defined hdefined
  exact h.settles_named hname hbinds rfl hargs hrun herror

theorem settles_run (h : config.Standard names scope s) (name : String) (args : List Value)
    {operands : List Form} {l : Location} {P : Except Cause Value → Prop} (hname : name ∈ names)
    (hdefined : Prelude.variants name ≠ [])
    (hargs : config.Settles s (levels + 1) (Eval.evalAll config.evaluate scope operands)
      (· = .ok args))
    (hrun : config.Settles s (levels + 1) (Prelude.run config scope name args) P) :
    config.Settles s (levels + 2) (config.evaluate scope (.call (.symbol name :: operands) l))
      P := by
  refine h.settles_defined name hname hdefined hargs ?_ ?_
  · rintro _ ⟨⟩
    exact hrun
  · rintro cause ⟨⟩

theorem settles_form (h : config.Standard names scope s) (form : SpecialForm)
    {operands : List Form} {l : Location} {P : Except Cause Value → Prop}
    (hform : form.name ∈ names)
    (hcall : config.Settles s (levels + 1)
      (Eval.callSpecial config.evaluate scope operands form) P) :
    config.Settles s (levels + 2)
      (config.evaluate scope (.call (.symbol form.name :: operands) l)) P :=
  settles_special (h.settles_symbol hform (Prelude.binds_special form)) hcall

/-- A call of a function of the prelude on a function that is written in place, and on values. -/
theorem settles_run_lambda (h : config.Standard names scope s) (name : String) (variant : Variant)
    (args : List Value) {operands : List Form} {l l' : Location} {P : Except Cause Value → Prop}
    (hname : name ∈ names) (hfn : "fn" ∈ names) (hdefined : Prelude.variants name ≠ [])
    (hargs : config.Settles s (levels + 2) (Eval.evalAll config.evaluate scope operands)
      (· = .ok args))
    (hrun : ∀ id, config.Settles s (levels + 2)
      (Prelude.run config scope name (.function (.closure id none [variant]) :: args)) P) :
    config.Settles s (levels + 3) (config.evaluate scope (.call (.symbol name ::
      .call (.symbol "fn" :: Prelude.Definition.clause variant) l' :: operands) l)) P := by
  have hlambda : config.Settles s (levels + 2) (config.evaluate scope
      (.call (.symbol "fn" :: Prelude.Definition.clause variant) l'))
      fun r => ∃ id, r = .ok (.function (.closure id none [variant])) :=
    h.settles_form .lambda hfn (settles_lambda
      (Eval.functionVariants_of_written .lambda (.inline variant.params variant.body)))
  refine h.settles_defined name hname hdefined
    (A := fun r => ∃ id, r = .ok (.function (.closure id none [variant]) :: args)) ?_ ?_ ?_
  · refine settles_evalAll_cons hlambda (fun _ _ => hargs) ?_ ?_ ?_
    · rintro _ _ ⟨id, ⟨⟩⟩ ⟨⟩
      exact ⟨id, rfl⟩
    · rintro cause ⟨id, ⟨⟩⟩
    · rintro _ cause _ ⟨⟩
  · rintro _ ⟨id, ⟨⟩⟩
    exact hrun id
  · rintro cause ⟨id, ⟨⟩⟩

/-- The body of a variant that takes the arguments is evaluated in a scope that differs from that of
the call in the parameters only, and has them bound. -/
theorem settles_enter (h : config.Standard names scope s) {params : List String} {body : Form}
    {later : List Variant} {name : Option String} {args : List Value}
    {bound : List (String × Value)} {P : Except Cause Value → Prop}
    (hbound : Params.bind? params args = .ok (some bound)) (hparams : ∀ x ∈ params, x ∉ names)
    (hbody : ∀ scope', config.Standard names scope' s → scope.SameBut params scope' →
      (∀ x v, Bindings.find bound.reverse x = some v → scope'.get? x = some v) →
      config.Settles s levels (config.evaluate scope' body) P) :
    config.Settles s levels
      (Eval.callVariants config.evaluate scope name args (⟨params, [body]⟩ :: later)) P := by
  have hscope : scope.SameBut params (scope.layer bound) :=
    Bindings.sameBut_layer (Params.names_subset hbound)
  refine settles_variant rfl hbound (hbody _ (h.sameBut hscope hparams) hscope fun x v hx => ?_)
  rw [Bindings.get?_layer, hx, Option.some_or]

end Standard

/-- In the scope, and in every scope that differs from it in these names only, the function comes to
`r` on the arguments. -/
def Computes (config : Config) (s : Session) (levels : Nat) (names : List String)
    (scope : Bindings) (f : Function) (args : List Value) (r : Except Cause Value) : Prop :=
  ∀ scope', scope.SameBut names scope' → config.Settles s levels
    (Eval.applyFunction config.access config.evaluate scope' args f) (· = r)

namespace Computes

variable {f : Function} {args : List Value} {r : Except Cause Value}

theorem sameBut {scope' : Bindings} (h : config.Computes s levels names scope f args r)
    (hscope : scope.SameBut names scope') : config.Computes s levels names scope' f args r :=
  fun scope'' hscope' => h scope'' (hscope.trans hscope')

theorem subset {fewer : List String} (h : config.Computes s levels names scope f args r)
    (hsub : fewer ⊆ names) : config.Computes s levels fewer scope f args r :=
  fun scope' hscope => h scope' (hscope.mono hsub)

/-- A special form cannot be applied to values. -/
theorem not_special {v : Value} (h : config.Computes s levels names scope f args (.ok v))
    {t : Session} (ht : s.SameWorld t) (hd : t.depth + levels ≤ config.maxDepth) :
    f.isSpecial = false := by
  obtain ⟨hok, -⟩ := h scope (.refl names scope) t ht hd
  cases f with
  | special form => cases hok
  | _ => rfl

end Computes

end Config

end Lisplet
