import Lisplet.Proofs.Endings
import Lisplet.Proofs.Standard
import Mathlib

/-!
Functions of any number of arguments. Subtraction and concatenation take more than two arguments by
calling themselves on the result for the first two and the others, through `apply`: each call has
one argument less, in a scope that binds the parameters anew. So they are left folds of what they do
with two.
-/

namespace Lisplet

namespace Config

variable {config : Config} {s : Session} {scope : Bindings} {levels : Nat} {names : List String}

/-- Variants that do not take the arguments are passed over. -/
theorem settles_variants_skip {variants : List Variant} {name : Option String} {args : List Value}
    {P : Except Cause Value → Prop} (earlier : List Variant)
    (hskip : ∀ v ∈ earlier, Params.bind? v.params args = .ok none)
    (h : config.Settles s levels
      (Eval.callVariants config.evaluate scope name args variants) P) :
    config.Settles s levels
      (Eval.callVariants config.evaluate scope name args (earlier ++ variants)) P := by
  induction earlier with
  | nil => exact h
  | cons v earlier ih =>
    exact settles_variant_later (hskip v List.mem_cons_self)
      (ih fun w hw => hskip w (List.mem_cons_of_mem v hw))

/-- `apply` calls the function on the arguments before its last and the items of that. -/
theorem settles_apply {f : Function} (leading : List Value) {items : List Value}
    {P : Except Cause Value → Prop} (hf : f ≠ .apply)
    (h : config.Settles s levels
      (Eval.applyFunction config.access config.evaluate scope (leading ++ items) f) P) :
    config.Settles s levels (Eval.applyFunction config.access config.evaluate scope
      (.function f :: (leading ++ [.list items])) .apply) P := by
  intro t ht hd
  have hspread := (Spreads.calls (h := t.heap) leading items hf).eq
  have hcall : Eval.applyFunction config.access config.evaluate scope
      (.function f :: (leading ++ [.list items])) .apply t =
      (Eval.ofExcept (spread t.heap (.function f :: (leading ++ [.list items]))) >>= fun p =>
        Eval.callDirect config.access config.evaluate scope p.2 p.1) t := rfl
  have hdirect : Eval.applyFunction config.access config.evaluate scope (leading ++ items) f =
      Eval.callDirect config.access config.evaluate scope (leading ++ items) f := by
    cases f with
    | apply => exact absurd rfl hf
    | _ => rfl
  rw [hdirect] at h
  rw [hcall, ← hspread]
  exact h t ht hd

end Config

namespace Prelude

/-- The last variant of a function of any number of arguments: the result for the first two, and the
others behind it, are the arguments of the next call. -/
def foldVariant (name x y : String) (l l' : Location) : Variant :=
  ⟨[x, y, "&", "more"], [.call [.symbol "apply", .symbol name,
    .call [.symbol name, .symbol x, .symbol y] l', .symbol "more"] l]⟩

/-- The other variants take two arguments at most. -/
structure Folds (name x y : String) : Prop where
  variants : ∃ earlier l l', variants name = earlier ++ [foldVariant name x y l l'] ∧
    ∀ v ∈ earlier, Params.restMarker ∉ v.params ∧ v.params.length ≤ 2
  fresh : [x, y, "&", "more"].Nodup
  plain : ∀ name ∈ [x, y], Member.ofSymbol? name = none

namespace Folds

variable {name x y : String}

theorem bind?_eq (h : Folds name x y) (a b : Value) (items : List Value) :
    Params.bind? [x, y, "&", "more"] (a :: b :: items) =
      .ok (some [(x, a), (y, b), ("more", .list items)]) := by
  have hleading : Params.restMarker ∉ [x, y] := by
    have hfresh := h.fresh
    grind [Params.restMarker]
  have hshape := Params.shape_append_cons hleading "more" []
  rw [if_neg (by decide)] at hshape
  have hbind : Params.bind? ([x, y] ++ ["&", "more"]) ([a, b] ++ (items ++ [])) = _ :=
    Params.bind?_of_rest hshape rfl rfl
  rwa [List.append_nil] at hbind

/-- What the parameters are bound to. -/
theorem find_eq (h : Folds name x y) (a b v : Value) :
    let bound := [(x, a), (y, b), ("more", v)]
    Bindings.find bound.reverse x = some a ∧ Bindings.find bound.reverse y = some b ∧
      Bindings.find bound.reverse "more" = some v := by
  have hfresh := h.fresh
  grind [Bindings.find]

end Folds

theorem folds_minus : Folds "-" "x" "y" := by
  refine ⟨⟨_ :: _ :: [], _, _, rfl, ?_⟩, by decide, by decide⟩
  decide

theorem folds_concat : Folds "concat" "xs" "ys" := by
  refine ⟨⟨_ :: _ :: _ :: [], _, _, rfl, ?_⟩, by decide, by decide⟩
  decide

end Prelude

namespace Config

variable {config : Config} {s : Session} {scope : Bindings} {levels : Nat} {names : List String}

/-- Such a function is the left fold of what it does with two arguments, in every scope that leaves
its name alone: the scope of each further call is again one. -/
theorem settles_folds {α : Type} {value : α → Value} {g : α → α → α} {name x y : String}
    (hfolds : Prelude.Folds name x y) (hname : name ∈ names) (happly : "apply" ∈ names)
    (hparams : ∀ z ∈ [x, y, "&", "more"], z ∉ names)
    (hpair : ∀ scope a b, config.Standard names scope s → config.Settles s 3
      (Prelude.run config scope name [value a, value b]) (· = .ok (value (g a b))))
    (std : config.Standard names scope s) (a b : α) (more : List α) :
    config.Settles s (more.length + 5)
      (Prelude.run config scope name (value a :: value b :: more.map value))
      (· = .ok (value ((b :: more).foldl g a))) := by
  obtain ⟨earlier, l, l', hvariants, hearlier⟩ := hfolds.variants
  have hdefined : Prelude.variants name ≠ [] := by
    rw [hvariants]
    exact List.append_ne_nil_of_right_ne_nil _ (List.cons_ne_nil _ _)
  obtain ⟨id, hbinds⟩ := Prelude.binds_defined hdefined
  induction more generalizing scope a b with
  | nil => exact (hpair scope a b std).lift (by omega)
  | cons c more ih =>
    rw [Prelude.run, hvariants]
    refine settles_variants_skip earlier (fun v hv => ?_) ?_
    · obtain ⟨hmarker, hlength⟩ := hearlier v hv
      have hne : v.params.length ≠ (value a :: value b :: (c :: more).map value).length := by
        simp only [List.map_cons, List.length_cons]
        omega
      rw [Params.bind?_of_plain (Params.shape_of_not_mem hmarker), if_neg hne]
    -- in the body the name still means the function, though the parameters are bound anew
    refine std.settles_enter (hfolds.bind?_eq _ _ _) hparams fun scope' std' _ hbound => ?_
    obtain ⟨hx, hy, hmore⟩ := hfolds.find_eq (value a) (value b) (.list ((c :: more).map value))
    refine std'.settles_named (A := (· = .ok [.function (.closure id (some name)
      (Prelude.variants name)), value (g a b), .list ((c :: more).map value)])) happly
      Prelude.binds_apply rfl (settles_operands ?_) ?_ ?_
    · refine .cons (std'.settles_symbol hname hbinds) (.cons ?_ (.cons ?_ .nil))
      · refine std'.settles_run name [value a, value b] hname hdefined (settles_operands ?_)
          ((hpair scope' a b std').lift (by omega))
        exact .cons (settles_local (hfolds.plain x (by simp)) (hbound _ _ hx))
          (.cons (settles_local (hfolds.plain y (by simp)) (hbound _ _ hy)) .nil)
      · exact settles_local rfl (hbound _ _ hmore)
    · rintro _ ⟨⟩
      refine settles_apply [value (g a b)] (by simp) ?_
      exact ih std' (g a b) c
    · rintro cause ⟨⟩

/-! Subtraction. -/

theorem settles_minus_one (std : config.Standard ["-", "*", "+", "apply"] scope s) (a : Number) :
    config.Settles s (levels + 2) (Prelude.run config scope "-" [.number a])
      (· = .ok (.number (-1 * a))) := by
  rw [Prelude.run]
  refine std.settles_enter rfl (by decide) fun scope std _ hbound => ?_
  exact std.settles_op .mul [.number (-1), .number a] (by decide)
    (settles_operands (.cons (settles_atom _) (.cons (settles_local rfl (hbound _ _ rfl)) .nil)))
    fun _ => rfl

theorem settles_minus_two (std : config.Standard ["-", "*", "+", "apply"] scope s) (a b : Number) :
    config.Settles s (levels + 3) (Prelude.run config scope "-" [.number a, .number b])
      (· = .ok (.number (a + -1 * b))) := by
  rw [Prelude.run]
  refine settles_variant_later rfl ?_
  refine std.settles_enter rfl (by decide) fun scope std _ hbound => ?_
  refine std.settles_op .add [.number a, .number (-1 * b)] (by decide)
    (settles_operands (.cons (settles_local rfl (hbound _ _ rfl)) (.cons ?_ .nil))) fun _ => rfl
  exact std.settles_op .mul [.number (-1), .number b] (by decide)
    (settles_operands (.cons (settles_atom _) (.cons (settles_local rfl (hbound _ _ rfl)) .nil)))
    fun _ => rfl

/-! Concatenation. -/

theorem settles_concat_nil (std : config.Standard ["concat", "apply"] scope s) :
    config.Settles s (levels + 1) (Prelude.run config scope "concat" []) (· = .ok (.list [])) := by
  rw [Prelude.run]
  exact std.settles_enter rfl (by decide) fun scope std _ hbound =>
    settles_vector settles_evalAll_nil

theorem settles_concat_one (std : config.Standard ["concat", "apply"] scope s) (xs : Value) :
    config.Settles s (levels + 1) (Prelude.run config scope "concat" [xs]) (· = .ok xs) := by
  rw [Prelude.run]
  refine settles_variant_later rfl ?_
  exact std.settles_enter rfl (by decide) fun scope std _ hbound =>
    settles_local rfl (hbound _ _ rfl)

theorem settles_concat_two (std : config.Standard ["concat", "apply"] scope s)
    (xs ys : List Value) :
    config.Settles s (levels + 2) (Prelude.run config scope "concat" [.list xs, .list ys])
      (· = .ok (.list (xs ++ ys))) := by
  rw [Prelude.run]
  refine settles_variant_later rfl (settles_variant_later rfl ?_)
  refine std.settles_enter rfl (by decide) fun scope std _ hbound => ?_
  have hitems : [Value.list ys].flatMap Host.spreadItems = ys := List.append_nil ys
  refine settles_member_call rfl (settles_operands (.cons (settles_local rfl (hbound _ _ rfl))
    (.cons (settles_local rfl (hbound _ _ rfl)) .nil))) fun _ => settles_method fun heap => ?_
  change Except.ok (Effect.give (.list (xs ++ [Value.list ys].flatMap Host.spreadItems))) = _
  rw [hitems]
  rfl

theorem settles_concat (std : config.Standard ["concat", "apply"] scope s)
    (lists : List (List Value)) :
    config.Settles s (lists.length + 3) (Prelude.run config scope "concat" (lists.map .list))
      (· = .ok (.list lists.flatten)) := by
  rcases lists with _ | ⟨xs, _ | ⟨ys, more⟩⟩
  · exact settles_concat_nil std
  · rw [List.flatten_singleton]
    exact settles_concat_one std (.list xs)
  · have hfold := settles_folds Prelude.folds_concat (by decide) (by decide) (by decide)
      (fun scope xs ys std => settles_concat_two std xs ys) std xs ys more
    have hflatten : (ys :: more).foldl (· ++ ·) xs = xs ++ (ys :: more).flatten :=
      List.foldl_append_eq_append.trans (by rw [List.map_id'])
    rw [hflatten] at hfold
    exact hfold

theorem settles_minus (std : config.Standard ["-", "*", "+", "apply"] scope s) (a b : Number)
    (more : List Number) :
    config.Settles s (more.length + 5)
      (Prelude.run config scope "-" (.number a :: .number b :: more.map .number))
      (· = .ok (.number ((b :: more).foldl (fun acc y => acc + -1 * y) a))) :=
  settles_folds Prelude.folds_minus (by decide) (by decide) (by decide)
    (fun _ a b std => settles_minus_two std a b) std a b more

/-- Concatenation and subtraction of any number of arguments are left folds of what they do with
two, if the levels that are left exceed those that the operands take by a bound linear in their
number. -/
theorem variadic_functions_fold {frames : Nat} (l : Location) :
    (config.Standard ["concat", "apply"] scope s → ∀ operands lists,
      List.Forall₂ (fun p xs => config.Evaluates s frames scope p (.list xs)) operands lists →
      config.Evaluates s (lists.length + frames + 4) scope (.call (.symbol "concat" :: operands) l)
        (.list lists.flatten)) ∧
    (config.Standard ["-", "*", "+", "apply"] scope s →
      (∀ p a, config.Evaluates s frames scope p (.number a) →
        config.Evaluates s (frames + 3) scope (.call [.symbol "-", p] l) (.number (-1 * a))) ∧
      ∀ operands a b more, List.Forall₂
        (fun p x => config.Evaluates s frames scope p (.number x)) operands (a :: b :: more) →
        config.Evaluates s (more.length + frames + 6) scope (.call (.symbol "-" :: operands) l)
          (.number ((b :: more).foldl (fun acc y => acc + -1 * y) a))) := by
  refine ⟨fun std operands lists hlists => ?_, fun std => ⟨fun p a ha => ?_, ?_⟩⟩
  · refine std.settles_run "concat" (lists.map .list) (by decide) (by decide)
      (settles_operands ?_) ((settles_concat std lists).lift (by omega))
    exact List.forall₂_map_right_iff.2 (hlists.imp fun _ _ h => Settles.lift h (by omega))
  · exact std.settles_run "-" [.number a] (by decide) (by decide)
      (settles_operands (.cons (Settles.lift ha (by omega)) .nil)) (settles_minus_one std a)
  · intro operands a b more hnumbers
    refine std.settles_run "-" ((a :: b :: more).map .number) (by decide) (by decide)
      (settles_operands ?_) ((settles_minus std a b more).lift (by omega))
    exact List.forall₂_map_right_iff.2 (hnumbers.imp fun _ _ h => Settles.lift h (by omega))

/-- Four numbers and three lists, in the session that programs start in. -/
theorem variadic_functions_fold_four :
    let l : Location := ⟨"a", ⟨1, 1⟩⟩
    let number x : Form := .atom (.number x)
    let value levels items v :=
      Config.default.Evaluates Prelude.session levels .empty (.call items l) v
    value 9 [.symbol "-", number 10, number 1, number 2, number 3]
        (.number (10 + -1 * 1 + -1 * 2 + -1 * 3)) ∧
      value 4 [.symbol "-", number 10] (.number (-1 * 10)) ∧
      value 9 [.symbol "concat", .vector [number 1], .vector [], .vector [number 2, number 3]]
        (.list [.number 1, .number 2, .number 3]) ∧
      value 6 [.symbol "concat"] (.list []) := by
  intro l number value
  have std := @standard_session Config.default rfl (by decide)
  have hvector (items : List Number) : Config.default.Evaluates Prelude.session 2 .empty
      (.vector (items.map number)) (.list (items.map .number)) := by
    refine settles_vector (settles_operands ?_)
    rw [List.forall₂_map_left_iff, List.forall₂_map_right_iff, List.forall₂_same]
    exact fun x _ => settles_atom _
  obtain ⟨hconcat, -⟩ := @variadic_functions_fold Config.default Prelude.session .empty 2 l
  obtain ⟨-, hminus⟩ := @variadic_functions_fold Config.default Prelude.session .empty 1 l
  refine ⟨?_, ?_, ?_, ?_⟩
  · exact (hminus (std _)).2 _ 10 1 [2, 3] (.cons (settles_atom _) (.cons (settles_atom _)
      (.cons (settles_atom _) (.cons (settles_atom _) .nil))))
  · exact (hminus (std _)).1 _ 10 (settles_atom _)
  · exact hconcat (std _) _ [[.number 1], [], [.number 2, .number 3]]
      (.cons (hvector [1]) (.cons (hvector []) (.cons (hvector [2, 3]) .nil)))
  · exact hconcat (std _) [] [] .nil

end Config

end Lisplet
