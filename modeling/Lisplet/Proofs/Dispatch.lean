import Lisplet.Eval.Evaluate
import Lisplet.Proofs.Arguments
import Mathlib

/-!
Which variant of a function is called. The variants are tried as they were written, and the number
of arguments alone decides about each: a malformed one ends the call with a failure, one that takes
so many arguments is called, and any other is passed over. So calls with equally many arguments go
the same way, and until a body is reached nothing is evaluated and nothing changes.
-/

namespace Lisplet

namespace Params

instance (params : List String) : Decidable (Malformed params) :=
  inferInstanceAs (Decidable (_ ∨ _))

instance (params : List String) (count : Nat) : Decidable (Takes params count) :=
  inferInstanceAs (Decidable (if restMarker ∈ params then _ else _))

theorem bind?_of_malformed {params : List String} (h : Malformed params) (args : List Value) :
    bind? params args = .error .restMarker := (bind?_eq_error_iff params args).2 h

theorem exists_bind?_of_takes {params : List String} {args : List Value} (hnot : ¬Malformed params)
    (h : Takes params args.length) : ∃ bound, bind? params args = .ok (some bound) := by
  rcases bind?_of_takes hnot h with ⟨-, -, hbound⟩ | ⟨_, _, _, _, _, _, -, -, -, -, hbound⟩
  · exact ⟨_, hbound⟩
  · exact ⟨_, hbound⟩

end Params

namespace Variant

/-- With so many arguments no variant behind this one is tried. -/
def decides (count : Nat) (v : Variant) : Bool :=
  decide (Params.Malformed v.params ∨ Params.Takes v.params count)

/-- The first variant that decides about a call with so many arguments. -/
def first? (count : Nat) (variants : List Variant) : Option Variant :=
  variants.find? (decides count)

/-- The forms of the body one after another, with names bound on top of the scope of the call. The
value is that of the last form, or the empty list. -/
def run (ev : Evaluator) (scope : Bindings) (bound : List (String × Value)) (v : Variant) :
    Eval Value :=
  v.body.foldlM (fun _ form => ev (scope.layer bound) form) (.list [])

theorem takes_of_decides {count : Nat} {v : Variant} (h : v.decides count = true)
    (hnot : ¬Params.Malformed v.params) : Params.Takes v.params count := by
  rw [decides, decide_eq_true_eq] at h
  exact h.resolve_left hnot

end Variant

namespace Eval

variable (ev : Evaluator) (scope : Bindings) (name : Option String) {args : List Value}

theorem evalBody_eq_foldlM (last : Value) (forms : List Form) :
    evalBody ev scope last forms = forms.foldlM (fun _ form => ev scope form) last := by
  induction forms generalizing last with
  | nil => rfl
  | cons form forms ih =>
    rw [evalBody, List.foldlM_cons]
    exact congrArg _ (funext ih)

/-- A variant that does not decide is passed over. -/
theorem callVariants_of_not_decides {v : Variant} (h : v.decides args.length = false)
    (variants : List Variant) :
    callVariants ev scope name args (v :: variants) = callVariants ev scope name args variants := by
  rw [Variant.decides, decide_eq_false_iff_not, not_or] at h
  rw [callVariants, Params.bind?_of_not_takes h.1 h.2]
  rfl

theorem callVariants_append {before : List Variant}
    (h : ∀ v ∈ before, v.decides args.length = false) (variants : List Variant) :
    callVariants ev scope name args (before ++ variants) =
      callVariants ev scope name args variants := by
  induction before with
  | nil => rfl
  | cons v before ih =>
    rw [List.cons_append, callVariants_of_not_decides ev scope name (h v (by simp)),
      ih fun u hu => h u (by simp [hu])]

/-- What happens is up to the first variant that decides. -/
theorem callVariants_of_first? {v : Variant} {variants : List Variant}
    (h : Variant.first? args.length variants = some v) :
    ∃ after, callVariants ev scope name args variants =
      callVariants ev scope name args (v :: after) := by
  obtain ⟨-, before, after, rfl, hbefore⟩ := List.find?_eq_some_iff_append.1 h
  refine ⟨after, callVariants_append ev scope name (fun u hu => ?_) _⟩
  simpa using hbefore u hu

theorem callVariants_takes {v : Variant} {variants : List Variant}
    (h : Variant.first? args.length variants = some v) (hnot : ¬Params.Malformed v.params) :
    ∃ bound, Params.bind? v.params args = .ok (some bound) ∧
      callVariants ev scope name args variants = v.run ev scope bound := by
  obtain ⟨after, hafter⟩ := callVariants_of_first? ev scope name h
  have htakes := Variant.takes_of_decides (List.find?_some h) hnot
  obtain ⟨bound, hbound⟩ := Params.exists_bind?_of_takes hnot htakes
  refine ⟨bound, hbound, ?_⟩
  rw [hafter, callVariants, hbound, Variant.run, ← evalBody_eq_foldlM]
  rfl

theorem callVariants_malformed {v : Variant} {variants : List Variant}
    (h : Variant.first? args.length variants = some v) (hmal : Params.Malformed v.params)
    (s : Session) :
    callVariants ev scope name args variants s = .error (.ofCause .restMarker) s := by
  obtain ⟨after, hafter⟩ := callVariants_of_first? ev scope name h
  rw [hafter, callVariants, Params.bind?_of_malformed hmal]
  rfl

theorem callVariants_unmatched {variants : List Variant}
    (h : Variant.first? args.length variants = none) (s : Session) :
    callVariants ev scope name args variants s =
      .error (.ofCause (.noSignature name (", ".intercalate (args.map s.heap.display)))) s := by
  have hnone : ∀ v ∈ variants, v.decides args.length = false := fun v hv => by
    simpa using List.find?_eq_none.1 h v hv
  have hskip := callVariants_append ev scope name hnone []
  rw [List.append_nil] at hskip
  rw [hskip]
  rfl

/-- Calls of a function go by the number of arguments alone. The first variant that is malformed or
takes so many arguments decides: its body is evaluated, form by form, or the call fails for the
marker; without such a variant it fails for want of a signature. A call that fails in one of these
ways evaluates nothing and changes nothing. With equally many other arguments a call reaches the
same body or fails in the same way. -/
theorem call_first_fit (access : Access) (ev : Evaluator) (scope : Bindings) (id : Nat)
    (name : Option String) (variants : List Variant) (args : List Value) :
    let call := fun args => applyFunction access ev scope args (.closure id name variants)
    (∀ v, Variant.first? args.length variants = some v → ¬Params.Malformed v.params →
      ∃ bound, Params.bind? v.params args = .ok (some bound) ∧
        call args = v.run ev scope bound) ∧
    (∀ v, Variant.first? args.length variants = some v → Params.Malformed v.params →
      ∀ s, call args s = .error (.ofCause .restMarker) s) ∧
    (Variant.first? args.length variants = none → ∀ s, call args s =
      .error (.ofCause (.noSignature name (", ".intercalate (args.map s.heap.display)))) s) ∧
    ∀ others : List Value, others.length = args.length →
      (∃ v ∈ variants, ∃ bound bound', Params.bind? v.params args = .ok (some bound) ∧
        Params.bind? v.params others = .ok (some bound') ∧
        call args = v.run ev scope bound ∧ call others = v.run ev scope bound') ∨
      (∀ s, call args s = .error (.ofCause .restMarker) s ∧
        call others s = .error (.ofCause .restMarker) s) ∨
      ∀ s, ∃ text text', call args s = .error (.ofCause (.noSignature name text)) s ∧
        call others s = .error (.ofCause (.noSignature name text')) s := by
  intro call
  refine ⟨fun v => callVariants_takes ev scope name, fun v => callVariants_malformed ev scope name,
    callVariants_unmatched ev scope name, fun others hlength => ?_⟩
  cases hfirst : Variant.first? args.length variants with
  | none =>
    have hothers := hlength ▸ hfirst
    exact .inr (.inr fun s => ⟨_, _, callVariants_unmatched ev scope name hfirst s,
      callVariants_unmatched ev scope name hothers s⟩)
  | some v =>
    have hothers := hlength ▸ hfirst
    by_cases hmal : Params.Malformed v.params
    · exact .inr (.inl fun s => ⟨callVariants_malformed ev scope name hfirst hmal s,
        callVariants_malformed ev scope name hothers hmal s⟩)
    · obtain ⟨bound, hbound, hrun⟩ := callVariants_takes ev scope name hfirst hmal
      obtain ⟨bound', hbound', hrun'⟩ := callVariants_takes ev scope name hothers hmal
      exact .inl ⟨v, List.mem_of_find?_eq_some hfirst, bound, bound', hbound, hbound', hrun, hrun'⟩

/-- The function `(fn ([a]) ([a &]) ([a b] b) ([& c] c))`: one argument is taken by the first
variant, whose body is empty, and two arguments do not get past the second. Without that they are
taken by whichever of the others stands first. -/
theorem call_first_fit_malformed :
    let b : Variant := ⟨["a", "b"], [.symbol "b"]⟩
    let c : Variant := ⟨["&", "c"], [.symbol "c"]⟩
    let variants : List Variant := [⟨["a"], []⟩, ⟨["a", "&"], []⟩, b, c]
    let call := fun args variants =>
      applyFunction .all (evaluate .all 9) .empty args (.closure 0 none variants) .initial
    call [.nil] variants = .ok (.list []) .initial ∧
      call [.nil, .nil] variants = .error (.ofCause .restMarker) .initial ∧
      call [.nil, .nil] [c, b] = .ok (.list [.nil, .nil]) .initial ∧
      call [] [b] = .error (.ofCause (.noSignature none "")) .initial := by
  intro b c variants call
  have hfit (variants : List Variant) (args : List Value) :=
    call_first_fit .all (evaluate .all 9) .empty 0 none variants args
  obtain ⟨_, -, hone⟩ := (hfit variants [.nil]).1 _ rfl (by decide)
  obtain ⟨_, ⟨⟩, hboth⟩ := (hfit [c, b] [.nil, .nil]).1 _ rfl (by decide)
  exact ⟨congrFun hone .initial,
    (hfit variants [.nil, .nil]).2.1 ⟨["a", "&"], []⟩ rfl (by decide) .initial,
    congrFun hboth .initial, (hfit [b] []).2.2.1 rfl .initial⟩

end Eval

end Lisplet
