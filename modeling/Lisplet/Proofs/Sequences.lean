import Lisplet.Proofs.Standard
import Lisplet.Proofs.WholeNumbers
import Mathlib

/-!
List functions. Counting, mapping, filtering, reducing and reversing are written in the language
itself: each function asks whether its sequence is empty and if not calls itself on the tail, in a
scope with its own parameters on top of those of the call before. What such a function comes to is
found by induction on the items, one body at a time, and every item costs a few levels more.
-/

namespace Lisplet

/-- The value is a list of these items, or a text with these characters. -/
inductive Value.Sequence : Value → List Value → Prop
  | list (items : List Value) : Sequence (.list items) items
  | text (s : String) : Sequence (.text s) (charsOf s)

namespace Value.Sequence

variable {xs x : Value} {items : List Value}

theorem first_eq (h : Sequence xs (x :: items)) : Primitive.first xs = .ok x := by
  generalize hitems : x :: items = all at h
  cases h with
  | list => rw [← hitems]; rfl
  | text s =>
    cases hs : s.toList with
    | nil => simp [charsOf, hs] at hitems
    | cons c cs =>
      simp only [charsOf, hs, List.map_cons, List.cons.injEq] at hitems
      rw [hitems.1, Primitive.first, hs]
      rfl

theorem others_eq (h : Sequence xs items) :
    ∃ ys, Primitive.others xs = .ok ys ∧ Sequence ys items.tail := by
  cases h with
  | list => exact ⟨_, rfl, .list _⟩
  | text s =>
    refine ⟨_, rfl, ?_⟩
    have htail : (charsOf s).tail = charsOf (String.ofList s.toList.tail) := by
      rw [charsOf, charsOf, String.toList_ofList, List.map_tail]
    rw [htail]
    exact .text _

theorem length_eq (h : Sequence xs items) (heap : Heap) :
    Host.field heap xs "length" = .ok (.ofNat items.length) := by
  cases h with
  | list => rfl
  | text s =>
    rw [charsOf, List.length_map]
    rfl

theorem kind_eq (h : Sequence xs items) : xs.kind = .list ∨ xs.kind = .text := by
  cases h with
  | list => exact .inl rfl
  | text => exact .inr rfl

end Value.Sequence

/-- The globals that the list functions of the prelude use. -/
def Prelude.listNames : List String :=
  ["count", "empty?", "map", "filter", "reduce", "reverse", "if", "fn", "=", "type", "cons", "head",
    "tail"]

namespace Config

variable {config : Config} {s : Session} {scope : Bindings} {levels : Nat} {xs : Value}
  {items : List Value}

theorem settles_count (std : config.Standard Prelude.listNames scope s) (hxs : xs.Sequence items) :
    config.Settles s (levels + 4) (Prelude.run config scope "count" [xs])
      (· = .ok (.ofNat items.length)) := by
  rw [Prelude.run]
  refine std.settles_enter rfl (by decide) fun scope std _ hbound => ?_
  have hoperands {more : Nat} : config.Settles s (more + 1)
      (Eval.evalAll config.evaluate scope [.symbol "xs"]) (· = .ok [xs]) :=
    settles_operands (.cons (settles_local rfl (hbound _ _ rfl)) .nil)
  refine std.settles_form .cond (by decide) (settles_cond (v := .bool false) ?_ ?_ ?_)
  · refine std.settles_op .equal [.text xs.kind.name, .text "Hash"] (by decide)
      (settles_operands (.cons ?_ (.cons (settles_atom _) .nil))) fun heap => ?_
    · exact std.settles_op .kind [xs] (by decide) hoperands fun _ => rfl
    · rcases hxs.kind_eq with hkind | hkind <;> rw [hkind] <;> rfl
  · rintro ⟨⟩
  · rintro -
    exact settles_member_call rfl hoperands fun _ => settles_field hxs.length_eq

theorem settles_empty (std : config.Standard Prelude.listNames scope s) (hxs : xs.Sequence items) :
    config.Settles s (levels + 6) (Prelude.run config scope "empty?" [xs])
      (· = .ok (.bool (items.length = 0))) := by
  rw [Prelude.run]
  refine std.settles_enter rfl (by decide) fun scope std _ hbound => ?_
  refine std.settles_op .equal [.ofNat items.length, .number 0] (by decide)
    (settles_operands (.cons ?_ (.cons (settles_atom _) .nil))) fun heap => ?_
  · exact std.settles_run "count" [xs] (by decide) (by decide)
      (settles_operands (.cons (settles_local rfl (hbound _ _ rfl)) .nil)) (settles_count std hxs)
  · rw [← Number.ofNat_beq_zero]
    rfl

/-! What the bodies of the list functions are made of, in a scope that binds `xs`. -/

section Parts

variable {x ys : Value} {l l' : Location}

theorem settles_head (std : config.Standard Prelude.listNames scope s)
    (hv : scope.get? "xs" = some xs) (hxs : xs.Sequence (x :: items)) :
    config.Settles s (levels + 2) (config.evaluate scope (.call [.symbol "head", .symbol "xs"] l))
      (· = .ok x) := by
  refine std.settles_op .head [xs] (by decide)
    (settles_operands (.cons (settles_local rfl hv) .nil)) fun heap => ?_
  rw [Primitive.plan, hxs.first_eq]

theorem settles_tail (std : config.Standard Prelude.listNames scope s)
    (hv : scope.get? "xs" = some xs) (hys : Primitive.others xs = .ok ys) :
    config.Settles s (levels + 2) (config.evaluate scope (.call [.symbol "tail", .symbol "xs"] l))
      (· = .ok ys) := by
  refine std.settles_op .tail [xs] (by decide)
    (settles_operands (.cons (settles_local rfl hv) .nil)) fun heap => ?_
  rw [Primitive.plan, hys]

/-- The choice that every one of them starts with. -/
theorem settles_cond_empty {yes no : Form} {P : Except Cause Value → Prop}
    (std : config.Standard Prelude.listNames scope s) (hv : scope.get? "xs" = some xs)
    (hxs : xs.Sequence items)
    (hyes : items = [] → config.Settles s (levels + 7) (config.evaluate scope yes) P)
    (hno : ∀ x rest, items = x :: rest →
      config.Settles s (levels + 7) (config.evaluate scope no) P) :
    config.Settles s (levels + 8) (config.evaluate scope
      (.call [.symbol "if", .call [.symbol "empty?", .symbol "xs"] l', yes, no] l)) P := by
  refine std.settles_form .cond (by decide) (settles_cond (v := .bool (items.length = 0)) ?_ ?_ ?_)
  · exact std.settles_run "empty?" [xs] (by decide) (by decide)
      (settles_operands (.cons (settles_local rfl hv) .nil)) (settles_empty std hxs)
  · intro htrue
    exact hyes (List.eq_nil_of_length_eq_zero (of_decide_eq_true htrue))
  · intro hfalse
    cases items with
    | nil => cases hfalse
    | cons x rest => exact hno x rest rfl

end Parts

/-! Mapping. -/

variable {f : Function} {x : Value} {frames : Nat}

/-- One item further: the function is called on it, and then `map` on the others. -/
theorem settles_mapBody {r : Except Cause Value} (vs : List Value)
    (std : config.Standard Prelude.listNames scope s) (hf : scope.get? "f" = some (.function f))
    (hv : scope.get? "xs" = some xs) (hspecial : f.isSpecial = false)
    (hxs : xs.Sequence (x :: items))
    (hfirst : config.Settles s (levels + 5)
      (Eval.applyFunction config.access config.evaluate scope [x] f) (· = r))
    (hrest : ∀ v ys, r = .ok v → ys.Sequence items → config.Settles s (levels + 5)
      (Prelude.run config scope "map" [.function f, ys]) (· = .ok (.list vs))) :
    config.Settles s (levels + 8) (config.evaluate scope Prelude.mapBody)
      (· = (fun v => .list (v :: vs)) <$> r) := by
  obtain ⟨ys, hothers, hys⟩ := hxs.others_eq
  refine settles_cond_empty std hv hxs ?_ ?_
  · rintro ⟨⟩
  rintro _ _ ⟨⟩
  refine std.settles_named (A := (· = (fun v => [v, .list vs]) <$> r)) (by decide)
    (Prelude.binds_primitive .cons) rfl ?_ ?_ ?_
  · refine settles_evalAll_cons (P := (· = r)) (Q := (· = .ok [.list vs])) ?_ (fun v hok => ?_) ?_
      ?_ ?_
    · exact settles_held rfl hf hspecial
        (settles_operands (.cons (settles_head std hv hxs) .nil)) hfirst
    · refine settles_operands (.cons (std.settles_run "map" [.function f, ys] (by decide)
        (by decide) (settles_operands ?_) (hrest v ys hok.symm hys)) .nil)
      exact .cons (settles_local rfl hf) (.cons (settles_tail std hv hothers) .nil)
    · rintro v _ rfl ⟨⟩
      rfl
    · rintro cause rfl
      rfl
    · rintro _ cause _ ⟨⟩
  · rintro args hargs
    cases r with
    | error cause => cases hargs
    | ok v =>
      cases hargs
      exact settles_primitive fun _ => rfl
  · rintro cause hcause
    cases r with
    | error cause => cases hcause; rfl
    | ok v => cases hcause

theorem settles_map {vs : List Value} (std : config.Standard Prelude.listNames scope s)
    (hxs : xs.Sequence items)
    (hf : List.Forall₂
      (fun x v => config.Computes s frames ["f", "xs"] scope f [x] (.ok v)) items vs) :
    config.Settles s (3 * items.length + frames + 8)
      (Prelude.run config scope "map" [.function f, xs]) (· = .ok (.list vs)) := by
  induction items generalizing xs scope vs with
  | nil =>
    cases hf
    rw [Prelude.run]
    refine std.settles_enter rfl (by decide) fun scope std _ hbound => ?_
    refine settles_cond_empty std (hbound _ _ rfl) hxs ?_ ?_
    · exact fun _ => settles_vector settles_evalAll_nil
    · rintro x rest ⟨⟩
  | cons x items ih =>
    obtain ⟨v, vs, hfirst, hrest, rfl⟩ := List.forall₂_cons_left_iff.1 hf
    -- what gives a value when it is applied is no special form, so its operand is evaluated
    refine .of_room fun t ht hd => ?_
    have hplain := hfirst.not_special ht (by omega)
    rw [Prelude.run]
    refine std.settles_enter rfl (by decide) fun scope' std' hscope hbound => ?_
    -- the choice, `cons` and the call of `map` are open around the next body
    have hlevels : 3 * (x :: items).length + frames + 8 =
        (3 * items.length + frames + 3) + 8 := by
      rw [List.length_cons]
      omega
    rw [hlevels]
    refine settles_mapBody (r := .ok v) vs std' (hbound _ _ rfl) (hbound _ _ rfl) hplain hxs
      ((hfirst scope' hscope).lift (by omega)) fun _ ys _ hys => ?_
    exact ih std' hys (hrest.imp fun _ _ h => h.sameBut hscope)

/-! Filtering. -/

/-- The item is kept if the test says so, and `filter` goes on with the others. -/
theorem settles_filterBody {v : Value} {vs : List Value}
    (std : config.Standard Prelude.listNames scope s) (hf : scope.get? "pred" = some (.function f))
    (hv : scope.get? "xs" = some xs) (hspecial : f.isSpecial = false)
    (hxs : xs.Sequence (x :: items))
    (htest : config.Settles s (levels + 5)
      (Eval.applyFunction config.access config.evaluate scope [x] f) (· = .ok v))
    (hrest : ∀ ys, ys.Sequence items → config.Settles s (levels + 4)
      (Prelude.run config scope "filter" [.function f, ys]) (· = .ok (.list vs))) :
    config.Settles s (levels + 8) (config.evaluate scope Prelude.filterBody)
      (· = .ok (.list (if v.isTruthy then x :: vs else vs))) := by
  obtain ⟨ys, hothers, hys⟩ := hxs.others_eq
  have hfilter {l l' : Location} : config.Settles s (levels + 5) (config.evaluate scope
      (.call [.symbol "filter", .symbol "pred", .call [.symbol "tail", .symbol "xs"] l'] l))
      (· = .ok (.list vs)) :=
    std.settles_run "filter" [.function f, ys] (by decide) (by decide) (settles_operands
      (.cons (settles_local rfl hf) (.cons (settles_tail std hv hothers) .nil))) (hrest ys hys)
  refine settles_cond_empty std hv hxs ?_ ?_
  · rintro ⟨⟩
  rintro _ _ ⟨⟩
  refine std.settles_form .cond (by decide) (settles_cond (v := v) ?_ ?_ ?_)
  · exact settles_held rfl hf hspecial
      (settles_operands (.cons (settles_head std hv hxs) .nil)) htest
  · intro htrue
    rw [if_pos htrue]
    exact std.settles_op .cons [x, .list vs] (by decide)
      (settles_operands (.cons (settles_head std hv hxs) (.cons hfilter .nil)))
      fun _ => rfl
  · intro hfalse
    rw [if_neg (by rw [hfalse]; exact Bool.false_ne_true)]
    exact hfilter.lift (Nat.le_succ _)

theorem settles_filter {g : Value → Value} (std : config.Standard Prelude.listNames scope s)
    (hxs : xs.Sequence items)
    (hf : ∀ x ∈ items, config.Computes s frames ["pred", "xs"] scope f [x] (.ok (g x))) :
    config.Settles s (4 * items.length + frames + 8)
      (Prelude.run config scope "filter" [.function f, xs])
      (· = .ok (.list (items.filter fun x => (g x).isTruthy))) := by
  induction items generalizing xs scope with
  | nil =>
    rw [Prelude.run]
    refine std.settles_enter rfl (by decide) fun scope std _ hbound => ?_
    refine settles_cond_empty std (hbound _ _ rfl) hxs ?_ ?_
    · exact fun _ => settles_vector settles_evalAll_nil
    · rintro x rest ⟨⟩
  | cons x items ih =>
    have hfirst := hf x List.mem_cons_self
    refine .of_room fun t ht hd => ?_
    have hplain := hfirst.not_special ht (by omega)
    rw [Prelude.run]
    refine std.settles_enter rfl (by decide) fun scope' std' hscope hbound => ?_
    -- as for `map`, with a second choice
    have hlevels : 4 * (x :: items).length + frames + 8 =
        (4 * items.length + frames + 4) + 8 := by
      rw [List.length_cons]
      omega
    rw [hlevels, List.filter_cons]
    refine settles_filterBody std' (hbound _ _ rfl) (hbound _ _ rfl) hplain hxs
      ((hfirst scope' hscope).lift (by omega)) fun ys hys => ?_
    exact ih std' hys fun y hy => (hf y (List.mem_cons_of_mem x hy)).sameBut hscope

/-! Reducing. -/

/-- The item is taken into the value so far, and `reduce` goes on from there. -/
theorem settles_reduceBody {a b : Value} {P : Except Cause Value → Prop}
    (std : config.Standard Prelude.listNames scope s) (hf : scope.get? "f" = some (.function f))
    (ha : scope.get? "acc" = some a) (hv : scope.get? "xs" = some xs)
    (hspecial : f.isSpecial = false) (hxs : xs.Sequence (x :: items))
    (hstep : config.Settles s (levels + 5)
      (Eval.applyFunction config.access config.evaluate scope [a, x] f) (· = .ok b))
    (hrest : ∀ ys, ys.Sequence items → config.Settles s (levels + 6)
      (Prelude.run config scope "reduce" [.function f, b, ys]) P) :
    config.Settles s (levels + 8) (config.evaluate scope Prelude.reduceBody) P := by
  obtain ⟨ys, hothers, hys⟩ := hxs.others_eq
  refine settles_cond_empty std hv hxs ?_ ?_
  · rintro ⟨⟩
  rintro _ _ ⟨⟩
  refine std.settles_run "reduce" [.function f, b, ys] (by decide) (by decide)
    (settles_operands ?_) (hrest ys hys)
  refine .cons (settles_local rfl hf) (.cons ?_ (.cons (settles_tail std hv hothers) .nil))
  refine settles_held rfl hf hspecial (settles_operands ?_) hstep
  exact .cons (settles_local rfl ha) (.cons (settles_head std hv hxs) .nil)

theorem settles_reduce {g : Value → Value → Value} {a : Value}
    (std : config.Standard Prelude.listNames scope s) (hxs : xs.Sequence items)
    (hf : ∀ before x after, items = before ++ x :: after →
      config.Computes s frames ["f", "acc", "xs"] scope f [before.foldl g a, x]
        (.ok (g (before.foldl g a) x))) :
    config.Settles s (2 * items.length + frames + 8)
      (Prelude.run config scope "reduce" [.function f, a, xs]) (· = .ok (items.foldl g a)) := by
  induction items generalizing xs scope a with
  | nil =>
    rw [Prelude.run]
    refine settles_variant_later rfl ?_
    refine std.settles_enter rfl (by decide) fun scope std _ hbound => ?_
    refine settles_cond_empty std (hbound _ _ rfl) hxs ?_ ?_
    · exact fun _ => settles_local rfl (hbound _ _ rfl)
    · rintro x rest ⟨⟩
  | cons x items ih =>
    have hstep := hf [] x items rfl
    refine .of_room fun t ht hd => ?_
    have hplain := hstep.not_special ht (by omega)
    rw [Prelude.run]
    refine settles_variant_later rfl ?_
    refine std.settles_enter rfl (by decide) fun scope' std' hscope hbound => ?_
    -- only the choice and the call of `reduce` are open: the result is not built up on the way back
    have hlevels : 2 * (x :: items).length + frames + 8 =
        (2 * items.length + frames + 2) + 8 := by
      rw [List.length_cons]
      omega
    rw [hlevels]
    refine settles_reduceBody std' (hbound _ _ rfl) (hbound _ _ rfl) (hbound _ _ rfl) hplain hxs
      ((hstep scope' hscope).lift (by omega)) fun ys hys => ?_
    refine ih std' hys fun before y after h => ?_
    exact (hf (x :: before) y after (by rw [h, List.cons_append])).sameBut hscope

/-- Without a value to start from, the first item is taken. -/
theorem settles_reduce_first {g : Value → Value → Value}
    (std : config.Standard Prelude.listNames scope s) (hxs : xs.Sequence (x :: items))
    (hf : ∀ before y after, items = before ++ y :: after →
      config.Computes s frames ["f", "acc", "xs"] scope f [before.foldl g x, y]
        (.ok (g (before.foldl g x) y))) :
    config.Settles s (2 * items.length + frames + 9)
      (Prelude.run config scope "reduce" [.function f, xs]) (· = .ok (items.foldl g x)) := by
  obtain ⟨ys, hothers, hys⟩ := hxs.others_eq
  rw [Prelude.run]
  refine std.settles_enter rfl (by decide) fun scope' std' hscope hbound => ?_
  have hv := hbound "xs" _ rfl
  have hscope' : scope.SameBut ["f", "acc", "xs"] scope' := hscope.mono (by decide)
  refine std'.settles_run "reduce" [.function f, x, ys] (by decide) (by decide)
    (settles_operands ?_) ?_
  · exact .cons (settles_local rfl (hbound _ _ rfl))
      (.cons (settles_head std' hv hxs) (.cons (settles_tail std' hv hothers) .nil))
  · exact settles_reduce std' hys fun before y after h =>
      (hf before y after h).sameBut hscope'

/-! Reversing. -/

/-- Each item goes in front of those before it. -/
theorem foldl_push (items vs : List Value) :
    items.foldl (fun acc x => Value.list (x :: Host.spreadItems acc)) (.list vs) =
      Value.list (items.reverse ++ vs) := by
  induction items generalizing vs with
  | nil => rfl
  | cons x items ih =>
    rw [List.foldl_cons, Host.spreadItems, ih, List.reverse_cons, List.append_assoc]
    rfl

/-- The function that `reverse` reduces with. -/
theorem computes_push (std : config.Standard Prelude.listNames scope s) (id : Nat)
    (vs : List Value) (x : Value) :
    config.Computes s 2 ["f", "acc", "xs"] scope (.closure id none [Prelude.push]) [.list vs, x]
      (.ok (.list (x :: vs))) := by
  intro scope' hscope
  refine (std.sameBut hscope (by decide)).settles_enter rfl (by decide) fun scope std _ hbound => ?_
  refine std.settles_op .cons [x, .list vs] (by decide) (settles_operands ?_) fun _ => rfl
  exact .cons (settles_local rfl (hbound _ _ rfl)) (.cons (settles_local rfl (hbound _ _ rfl)) .nil)

theorem settles_reverse (std : config.Standard Prelude.listNames scope s)
    (hxs : xs.Sequence items) :
    config.Settles s (2 * items.length + 11) (Prelude.run config scope "reverse" [xs])
      (· = .ok (.list items.reverse)) := by
  rw [Prelude.run]
  refine std.settles_enter rfl (by decide) fun scope std _ hbound => ?_
  refine std.settles_run_lambda "reduce" Prelude.push [.list [], xs] (by decide) (by decide)
    (by decide) (settles_operands ?_) fun id => ?_
  · exact .cons (settles_vector settles_evalAll_nil)
      (.cons (settles_local rfl (hbound _ _ rfl)) .nil)
  · have hfold := foldl_push items []
    rw [List.append_nil] at hfold
    rw [← hfold]
    refine settles_reduce std hxs fun before x after _ => ?_
    rw [foldl_push before []]
    exact computes_push std id _ x

/-- In a scope that hides none of the names they use, the list functions come to what they are named
for, on a list or a text of any length, if the levels that are left exceed those that the operands
and the function take by a bound linear in the length. The function may read what the scope of the
call binds, but for the parameters of the list functions, and need only be defined on the arguments
that it gets. -/
theorem list_functions_settle (std : config.Standard Prelude.listNames scope s)
    (g : List Value → Value) {p q : Form} (l : Location) (hxs : xs.Sequence items)
    (hp : config.Evaluates s frames scope p (.function f))
    (hq : config.Evaluates s frames scope q xs) :
    let levels := 4 * items.length + frames + 12
    let gives args :=
      config.Computes s frames ["f", "pred", "acc", "xs"] scope f args (.ok (g args))
    let fold := List.foldl fun acc x => g [acc, x]
    ((∀ x ∈ items, gives [x]) →
      config.Evaluates s levels scope (.call [.symbol "map", p, q] l)
        (.list (items.map fun x => g [x])) ∧
      config.Evaluates s levels scope (.call [.symbol "filter", p, q] l)
        (.list (items.filter fun x => (g [x]).isTruthy))) ∧
    (∀ r a, config.Evaluates s frames scope r a →
      (∀ before x after, items = before ++ x :: after → gives [fold a before, x]) →
      config.Evaluates s levels scope (.call [.symbol "reduce", p, r, q] l) (fold a items)) ∧
    (∀ first rest, items = first :: rest →
      (∀ before x after, rest = before ++ x :: after → gives [fold first before, x]) →
      config.Evaluates s levels scope (.call [.symbol "reduce", p, q] l) (fold first rest)) ∧
    config.Evaluates s levels scope (.call [.symbol "reverse", q] l) (.list items.reverse) := by
  intro levels gives fold
  have hf {more : Nat} (hmore : frames ≤ more) := Settles.lift hp hmore
  have hv {more : Nat} (hmore : frames ≤ more) := Settles.lift hq hmore
  refine ⟨fun hgives => ⟨?_, ?_⟩, fun r a hr hgives => ?_, ?_, ?_⟩
  · have hmap : List.Forall₂
        (fun x v => config.Computes s frames ["f", "xs"] scope f [x] (.ok v)) items
        (items.map fun x => g [x]) :=
      List.forall₂_map_right_iff.2 (List.forall₂_same.2 fun x hx =>
        (hgives x hx).subset (by decide))
    exact std.settles_run "map" [.function f, xs] (by decide) (by decide)
      (settles_operands (.cons (hf (by omega)) (.cons (hv (by omega)) .nil)))
      ((settles_map std hxs hmap).lift (by omega))
  · have hfilter := settles_filter std hxs fun x hx => (hgives x hx).subset (by decide)
    exact std.settles_run "filter" [.function f, xs] (by decide) (by decide)
      (settles_operands (.cons (hf (by omega)) (.cons (hv (by omega)) .nil)))
      (hfilter.lift (by omega))
  · have hreduce := settles_reduce std hxs fun before x after h =>
      (hgives before x after h).subset (by decide)
    exact std.settles_run "reduce" [.function f, a, xs] (by decide) (by decide)
      (settles_operands (.cons (hf (by omega))
        (.cons (Settles.lift hr (by omega)) (.cons (hv (by omega)) .nil))))
      (hreduce.lift (by omega))
  · rintro first rest rfl hgives
    have hreduce := settles_reduce_first std hxs fun before x after h =>
      (hgives before x after h).subset (by decide)
    exact std.settles_run "reduce" [.function f, xs] (by decide) (by decide)
      (settles_operands (.cons (hf (by omega)) (.cons (hv (by omega)) .nil)))
      (hreduce.lift (by simp; omega))
  · exact std.settles_run "reverse" [xs] (by decide) (by decide)
      (settles_operands (.cons (hv (by omega)) .nil)) ((settles_reverse std hxs).lift (by omega))

/-- The characters of a text, mapped to their heads, filtered by them, reduced by `cons` and
reversed, in the session that programs start in. -/
theorem list_functions_settle_text :
    let l : Location := ⟨"a", ⟨1, 1⟩⟩
    let q : Form := .atom (.text "ab")
    let a : Value := .ofChar 'a'
    let b : Value := .ofChar 'b'
    let value items v := Config.default.Evaluates Prelude.session 21 .empty (.call items l) v
    Config.default.Standard Prelude.listNames .empty Prelude.session ∧
      value [.symbol "map", .symbol "head", q] (.list [a, b]) ∧
      value [.symbol "filter", .symbol "head", q] (.list [a, b]) ∧
      value [.symbol "reduce", .symbol "cons", .atom .nil, q] (.list [.list [.nil, a], b]) ∧
      value [.symbol "reduce", .symbol "cons", q] (.list [a, b]) ∧
      value [.symbol "reverse", q] (.list [b, a]) := by
  intro l q a b value
  have std := @standard_session Config.default rfl (by decide) Prelude.listNames
  have hxs : Value.Sequence (.text "ab") [a, b] := .text "ab"
  have hq : Config.default.Evaluates Prelude.session 1 .empty q (.text "ab") := settles_atom _
  have hhead (x : Value) (hx : x ∈ [a, b]) (scope : Bindings) : Config.default.Settles
      Prelude.session 1 (Eval.applyFunction Config.default.access Config.default.evaluate scope [x]
        (.primitive .head)) (· = .ok x) := by
    refine settles_primitive fun _ => ?_
    rcases List.mem_pair.1 hx with rfl | rfl <;> rfl
  have hcons (acc x : Value) (hx : x ∈ [a, b]) (scope : Bindings) : Config.default.Settles
      Prelude.session 1 (Eval.applyFunction Config.default.access Config.default.evaluate scope
        [acc, x] (.primitive .cons)) (· = .ok (.list [acc, x])) := by
    refine settles_primitive fun _ => ?_
    rcases List.mem_pair.1 hx with rfl | rfl <;> rfl
  obtain ⟨hunary, -, -, hreverse⟩ := list_functions_settle std (fun args => args.head?.getD .nil) l
    hxs (std.settles_symbol (by decide) (Prelude.binds_primitive .head)) hq
  obtain ⟨hmap, hfilter⟩ := hunary fun x hx scope _ => hhead x hx scope
  obtain ⟨-, hreduce, hfirst, -⟩ := list_functions_settle std Value.list l hxs
    (std.settles_symbol (by decide) (Prelude.binds_primitive .cons)) hq
  refine ⟨std, hmap, hfilter, ?_, ?_, hreverse⟩
  · refine hreduce (.atom .nil) .nil (settles_atom _) fun before x after h scope _ => ?_
    exact hcons _ x (by rw [h]; simp) scope
  · refine hfirst a [b] rfl fun before x after h scope _ => ?_
    exact hcons _ x (by rw [h]; simp) scope

end Config

end Lisplet
