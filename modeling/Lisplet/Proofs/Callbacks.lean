import Lisplet.Proofs.Sequences
import Mathlib

/-!
Callbacks that read a local. A function sees the names bound where it is called, so a function given
to `map` sees the local names of the program with the parameters of `map` on top. It finds a local
of any other name; a local with the name of one of these parameters is hidden, and what the function
finds instead is itself or the list.
-/

namespace Lisplet

namespace Prelude

def scalingNames : List String := "let" :: "*" :: listNames

def scaling (k : String) (l : Location) : Variant :=
  ⟨["x"], [.call [.symbol "*", .symbol "x", .symbol k] l]⟩

/-- A list of numbers mapped by the product with a local, `(let [k v] (map (fn [x] (* x k)) xs))`,
with a place for each of its calls. -/
def scaled (k : String) (v : Number) (xs : List Number) (place : Nat → Location) : Form :=
  .call [.symbol "let", .vector [.symbol k, .atom (.number v)],
    .call [.symbol "map", .call (.symbol "fn" :: Definition.clause (scaling k (place 3))) (place 2),
      .vector (xs.map fun x => .atom (.number x))] (place 1)] (place 0)

theorem global_eq_none_iff (name : String) :
    session.globals.get? name = none ↔
      name ∉ definitions.map Definition.name ++ builtins.map Prod.fst := by
  rw [session, Bindings.get?_layer, Bindings.get?_layer, Bindings.get?_empty, Option.or_none,
    Option.or_eq_none_iff, Bindings.find_eq_none_iff, Bindings.find_eq_none_iff, List.map_reverse,
    List.map_reverse, List.mem_reverse, List.mem_reverse, map_fst_functions, List.mem_append,
    not_or]

end Prelude

namespace Config

variable {config : Config} {s : Session} {scope : Bindings} {levels : Nat} {k : String}
  {v : Number} {xs : List Number} {place : Nat → Location}

theorem Standard.not_mem_scalingNames (std : config.Standard Prelude.scalingNames scope s)
    (hk : s.globals.get? k = none) : k ∉ Prelude.scalingNames := by
  have hglobal : ∀ name ∈ Prelude.scalingNames,
      name ∈ Prelude.definitions.map Prelude.Definition.name ++ builtins.map Prod.fst := by decide
  intro hmem
  obtain ⟨start, hstart, hsame⟩ := std.started
  rw [hsame k hmem, eq_session_of_start std.prelude hstart, Prelude.global_eq_none_iff] at hk
  exact hk (hglobal k hmem)

/-- The product is of the item and of what the variable is where the function is called. -/
theorem settles_scaling (std : config.Standard Prelude.scalingNames scope s) {id : Nat}
    {l : Location} {x : Number} {w : Value} {r : Except Cause Value}
    (hplain : Member.ofSymbol? k = none) (hx : k ≠ "x") (hw : scope.get? k = some w)
    (hr : Primitive.combine .mul (· * ·) (.number x) [w] = r) :
    config.Settles s (levels + 2) (Eval.applyFunction config.access config.evaluate scope
      [.number x] (.closure id none [Prelude.scaling k l])) (· = r) := by
  refine std.settles_enter rfl (by decide) fun scope' std' hscope hbound => ?_
  refine std'.settles_op .mul [.number x, w] (by decide) (settles_operands ?_) fun _ => ?_
  · refine .cons (settles_local rfl (hbound _ _ rfl)) (.cons (settles_local hplain ?_) .nil)
    rw [hscope k (by simpa using hx), hw]
  · rw [← hr]
    rfl

theorem settles_scaled (std : config.Standard Prelude.scalingNames scope s)
    (hk : k ∉ Prelude.scalingNames) {P : Except Cause Value → Prop}
    (hmap : ∀ scope' f, config.Standard Prelude.scalingNames scope' s →
      scope'.get? k = some (.number v) →
      (∃ id, f = .closure id none [Prelude.scaling k (place 3)]) →
      config.Settles s (levels + 8)
        (Prelude.run config scope' "map" [.function f, .list (xs.map .number)]) P) :
    config.Settles s (levels + 10) (config.evaluate scope (Prelude.scaled k v xs place)) P := by
  have hscope : scope.SameBut [k] (scope.layer [(k, .number v)]) :=
    Bindings.sameBut_layer (List.Subset.refl [k])
  have std' := std.sameBut hscope (by simpa using hk)
  have hlocal : (scope.layer [(k, .number v)]).get? k = some (.number v) := by
    simp [Bindings.get?_layer, Bindings.find]
  refine std.settles_form .binding (by decide) (settles_binding (settles_atom _) ?_)
  refine std'.settles_run_lambda "map" (Prelude.scaling k (place 3)) [.list (xs.map .number)]
    (by decide) (by decide) (by decide) ?_ fun id => hmap _ _ std' hlocal ⟨id, rfl⟩
  refine settles_operands (.cons (settles_vector (settles_operands ?_)) .nil)
  rw [List.forall₂_map_left_iff, List.forall₂_map_right_iff, List.forall₂_same]
  exact fun x _ => settles_atom _

theorem settles_scaled_seen (std : config.Standard Prelude.scalingNames scope s)
    (hk : k ∉ Prelude.scalingNames) (hplain : Member.ofSymbol? k = none) (hx : k ≠ "x")
    (hparams : xs ≠ [] → k ∉ ["f", "xs"]) :
    config.Settles s (3 * xs.length + 12) (config.evaluate scope (Prelude.scaled k v xs place))
      (· = .ok (.list (xs.map fun x => .number (x * v)))) := by
  have hlevels : 3 * xs.length + 12 = (3 * xs.length + 2) + 10 := by omega
  rw [hlevels]
  refine settles_scaled std hk fun scope' f std' hlocal hf => ?_
  obtain ⟨id, rfl⟩ := hf
  have hmap : List.Forall₂ (fun x w => config.Computes s 2 ["f", "xs"] scope'
      (.closure id none [Prelude.scaling k (place 3)]) [x] (.ok w)) (xs.map .number)
      (xs.map fun x => .number (x * v)) := by
    rw [List.forall₂_map_left_iff, List.forall₂_map_right_iff, List.forall₂_same]
    intro x hmem scope'' hscope
    have hw := hscope k (hparams (List.ne_nil_of_mem hmem))
    exact settles_scaling (std'.sameBut hscope (by decide)) hplain hx (hw.trans hlocal) rfl
  have hrun := settles_map (std'.subset (by decide)) (.list _) hmap
  exact hrun.lift (by simp)

theorem settles_scaled_hidden (std : config.Standard Prelude.scalingNames scope s)
    (hk : k ∈ ["f", "xs"]) (hne : xs ≠ []) :
    config.Settles s (levels + 12) (config.evaluate scope (Prelude.scaled k v xs place))
      (· = .error (.mismatch "*" (.expected "Number" (if k = "f" then .function else .list)))) := by
  have hparams : ∀ name ∈ ["f", "xs"],
      name ∉ Prelude.scalingNames ∧ Member.ofSymbol? name = none ∧ name ≠ "x" := by decide
  obtain ⟨hnames, hplain, hx⟩ := hparams k hk
  obtain ⟨x, xs, rfl⟩ := List.exists_cons_of_ne_nil hne
  refine settles_scaled std hnames fun scope' f std' _ hf => ?_
  obtain ⟨id, rfl⟩ := hf
  rw [Prelude.run]
  refine std'.settles_enter rfl (by decide) fun scope'' std'' _ hbound => ?_
  refine settles_mapBody (r := .error _) [] (std''.subset (by decide)) (hbound _ _ rfl)
    (hbound _ _ rfl) rfl (.list _) ?_ ?_
  · rcases List.mem_pair.1 hk with rfl | rfl
    · exact settles_scaling std'' hplain hx (hbound _ _ rfl) rfl
    · exact settles_scaling std'' hplain hx (hbound _ _ rfl) rfl
  · rintro v ys ⟨⟩

/-- A local is found by a function that is given to `map`, whatever its name, if that is not the
function's own parameter or a global: the items are multiplied by it. Only the names of the
parameters of `map` are hidden, and then the first product fails if there is one. -/
theorem callback_finds_local (std : config.Standard Prelude.scalingNames scope s)
    (hplain : Member.ofSymbol? k = none) (hx : k ≠ "x") (hglobal : s.globals.get? k = none)
    (v : Number) (xs : List Number) (place : Nat → Location) :
    let levels := 3 * xs.length + 12
    let form := Prelude.scaled k v xs place
    let products := Value.list (xs.map fun x => .number (x * v))
    (k ∉ ["f", "xs"] ∨ xs = [] → config.Evaluates s levels scope form products) ∧
    (k ∈ ["f", "xs"] ∧ xs ≠ [] → config.Settles s levels (config.evaluate scope form)
      (· = .error (.mismatch "*"
        (.expected "Number" (if k = "f" then .function else .list))))) := by
  intro levels form products
  refine ⟨fun hseen => ?_, fun hhidden => settles_scaled_hidden std hhidden.1 hhidden.2⟩
  exact settles_scaled_seen std (std.not_mem_scalingNames hglobal) hplain hx
    fun hne => hseen.resolve_right hne

theorem callback_finds_local_acc :
    let place (_ : Nat) : Location := ⟨"a", ⟨1, 1⟩⟩
    let s := Prelude.session
    s.globals.get? "acc" = none ∧ s.globals.get? "f" = none ∧ s.globals.get? "xs" = none ∧
      Config.default.Evaluates s 18 .empty (Prelude.scaled "acc" 10 [1, 2] place)
        (.list [.number (1 * 10), .number (2 * 10)]) ∧
      Config.default.Evaluates s 12 .empty (Prelude.scaled "f" 10 [] place) (.list []) ∧
      Config.default.Settles s 15
        (Config.default.evaluate .empty (Prelude.scaled "xs" 10 [1] place))
        (· = .error (.mismatch "*" (.expected "Number" .list))) := by
  intro place s
  have std := @standard_session Config.default rfl (by decide) Prelude.scalingNames
  have hfree {name : String}
      (h : name ∉ Prelude.definitions.map Prelude.Definition.name ++ builtins.map Prod.fst) :
      s.globals.get? name = none := (Prelude.global_eq_none_iff name).2 h
  have hacc : s.globals.get? "acc" = none := hfree (by decide)
  have hf : s.globals.get? "f" = none := hfree (by decide)
  have hxs : s.globals.get? "xs" = none := hfree (by decide)
  refine ⟨hacc, hf, hxs, ?_, ?_, ?_⟩
  · exact (callback_finds_local std rfl (by decide) hacc 10 [1, 2] place).1 (.inl (by decide))
  · exact (callback_finds_local std rfl (by decide) hf 10 [] place).1 (.inr rfl)
  · exact (callback_finds_local std rfl (by decide) hxs 10 [1] place).2 ⟨by decide, by simp⟩

/-- A local `f` is not found, though `f` is a variable, is no global and is not the parameter of the
function. -/
theorem callback_misses_local_f :
    let form := Prelude.scaled "f" 10 [1, 2] fun _ => ⟨"a", ⟨1, 1⟩⟩
    ∃ s, Config.default.start = .ok s ∧ Member.ofSymbol? "f" = none ∧ "f" ≠ "x" ∧
      s.globals.get? "f" = none ∧
      Outcome.verdict (Config.default.evaluate .empty form s) =
        .error (.mismatch "*" (.expected "Number" .function)) := by
  intro form
  have hstart : Config.default.start = .ok Prelude.session := start_eq rfl (by decide)
  have std := @standard_session Config.default rfl (by decide) Prelude.scalingNames
  have hfails : Config.default.Settles Prelude.session 12 (Config.default.evaluate .empty form)
      (· = .error (.mismatch "*" (.expected "Number" .function))) :=
    settles_scaled_hidden std List.mem_cons_self (by simp)
  refine ⟨_, hstart, rfl, by decide, (Prelude.global_eq_none_iff "f").2 (by decide), ?_⟩
  exact (hfails _ (.refl _) (by decide)).1

end Config

end Lisplet
