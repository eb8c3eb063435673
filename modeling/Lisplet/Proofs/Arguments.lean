import Lisplet.Bindings
import Lisplet.Params
import Mathlib

/-!
Arguments and parameters. A parameter list is malformed exactly if its marker stands twice or last.
Any other takes as many arguments as it has parameters, or with a marker at least as many as it
names, and then no argument is lost or bound twice: cut into a front, a middle and a back, they
are what the leading, the rest and the trailing parameters are bound to.
-/

namespace Lisplet

/-- On top of a scope, a name has the last of its further bindings. -/
theorem Bindings.get?_layer (b : Bindings) (more : List (String × Value)) (name : String) :
    (b.layer more).get? name = (find more.reverse name).or (b.get? name) := by
  induction more using List.reverseRecOn with
  | nil => rfl
  | append_singleton more e ih =>
    obtain ⟨n, v⟩ := e
    have hlayer : b.layer (more ++ [(n, v)]) = (b.layer more).insert n v := by
      simp [layer, List.foldl_append]
    rw [hlayer, get?_insert, ih, List.reverse_append, List.reverse_singleton, List.singleton_append,
      find]
    by_cases hn : n = name
    · simp [hn]
    · simp [hn, Ne.symm hn]

namespace Params

variable {params leading : List String} {args : List Value}

/-- The marker stands twice, or nothing follows it. -/
def Malformed (params : List String) : Prop :=
  1 < params.count restMarker ∨ params.getLast? = some restMarker

/-- The parameter list takes so many arguments. -/
def Takes (params : List String) (count : Nat) : Prop :=
  if restMarker ∈ params then params.length - 2 ≤ count else count = params.length

/-! The three shapes, by where the marker stands. -/

theorem not_marker_of_not_mem (h : restMarker ∉ leading) :
    ∀ name ∈ leading, decide (name ≠ restMarker) = true := by
  intro name hname
  rw [decide_eq_true_eq]
  rintro rfl
  exact h hname

theorem shape_of_not_mem (h : restMarker ∉ params) : shape params = .plain params := by
  have hnone := not_marker_of_not_mem h
  rw [shape, List.dropWhile_eq_nil_iff.2 hnone, List.takeWhile_eq_self_iff.2 hnone]

theorem shape_append_marker (h : restMarker ∉ leading) :
    shape (leading ++ [restMarker]) = .malformed := by
  have hnone := not_marker_of_not_mem h
  rw [shape, List.dropWhile_append_of_pos hnone]
  rfl

/-- The parameters taken apart at the first marker, if something follows it. -/
theorem shape_append_cons (h : restMarker ∉ leading) (rest : String) (trailing : List String) :
    shape (leading ++ restMarker :: rest :: trailing) =
      if restMarker ∈ rest :: trailing then .malformed else .rest leading rest trailing := by
  have hnone := not_marker_of_not_mem h
  rw [shape, List.dropWhile_append_of_pos hnone, List.takeWhile_append_of_pos hnone]
  simp

theorem count_append (h : restMarker ∉ leading) (behind : List String) :
    (leading ++ restMarker :: behind).count restMarker = behind.count restMarker + 1 := by
  rw [List.count_append, List.count_eq_zero_of_not_mem h, List.count_cons_self, Nat.zero_add]

theorem not_malformed_of_not_mem (h : restMarker ∉ params) : ¬Malformed params := by
  rintro (hcount | hlast)
  · rw [List.count_eq_zero_of_not_mem h] at hcount
    omega
  · exact h (List.mem_of_getLast? hlast)

theorem not_malformed_append {rest : String} {trailing : List String} (h : restMarker ∉ leading)
    (hbehind : restMarker ∉ rest :: trailing) :
    ¬Malformed (leading ++ restMarker :: rest :: trailing) := by
  rintro (hcount | hlast)
  · rw [count_append h, List.count_eq_zero_of_not_mem hbehind] at hcount
    omega
  · rw [List.getLast?_append_cons, List.getLast?_cons_cons] at hlast
    exact hbehind (List.mem_of_getLast? hlast)

/-- Every parameter list has no marker, one marker with a rest parameter, or is malformed. -/
theorem shape_cases (params : List String) :
    (restMarker ∉ params ∧ ¬Malformed params ∧ shape params = .plain params) ∨
    (∃ leading rest trailing, params = leading ++ restMarker :: rest :: trailing ∧
      ¬Malformed params ∧ shape params = .rest leading rest trailing) ∨
    (Malformed params ∧ shape params = .malformed) := by
  by_cases hmem : restMarker ∈ params
  · obtain ⟨leading, behind, rfl, hleading⟩ := List.eq_append_cons_of_mem hmem
    cases behind with
    | nil => exact .inr (.inr ⟨.inr (by simp), shape_append_marker hleading⟩)
    | cons rest trailing =>
      have hshape := shape_append_cons hleading rest trailing
      by_cases hbehind : restMarker ∈ rest :: trailing
      · rw [if_pos hbehind] at hshape
        have hcount : 0 < (rest :: trailing).count restMarker := List.count_pos_iff.2 hbehind
        refine .inr (.inr ⟨.inl ?_, hshape⟩)
        rw [count_append hleading]
        omega
      · rw [if_neg hbehind] at hshape
        have hnot := not_malformed_append hleading hbehind
        exact .inr (.inl ⟨leading, rest, trailing, rfl, hnot, hshape⟩)
  · exact .inl ⟨hmem, not_malformed_of_not_mem hmem, shape_of_not_mem hmem⟩

/-! What is bound, by shape. -/

theorem bind?_of_plain (h : shape params = .plain params) (args : List Value) :
    bind? params args =
      .ok (if params.length = args.length then some (params.zip args) else none) := by
  rw [bind?, h]

/-- Leading and trailing parameters are bound to the two ends, and what lies between is the rest. -/
theorem bind?_of_rest {rest : String} {trailing : List String}
    (h : shape params = .rest leading rest trailing) {front middle back : List Value}
    (hfront : front.length = leading.length) (hback : back.length = trailing.length) :
    bind? params (front ++ (middle ++ back)) =
      .ok (some (leading.zip front ++ trailing.zip back ++ [(rest, .list middle)])) := by
  have hbetween :
      (front ++ (middle ++ back)).length - front.length - back.length = middle.length := by
    simp only [List.length_append]
    omega
  have hle : front.length + back.length ≤ (front ++ (middle ++ back)).length := by
    simp only [List.length_append]
    omega
  have hzip : leading.zip (front ++ (middle ++ back)) = leading.zip front := by
    rw [← List.append_nil leading, List.zip_append hfront.symm, List.zip_nil_left, List.append_nil,
      List.append_nil]
  rw [bind?, h]
  simp only [← hfront, ← hback, if_pos hle, hbetween]
  rw [hzip, List.drop_left, List.drop_left, List.take_left]

theorem bind?_of_few {rest : String} {trailing : List String}
    (h : shape params = .rest leading rest trailing)
    (hlt : args.length < leading.length + trailing.length) : bind? params args = .ok none := by
  rw [bind?, h]
  simp only [if_neg (Nat.not_le.2 hlt)]

theorem bind?_eq_error_iff (params : List String) (args : List Value) :
    bind? params args = .error .restMarker ↔ Malformed params := by
  rcases shape_cases params with ⟨-, hnot, hshape⟩ | ⟨leading, rest, trailing, -, hnot, hshape⟩ |
    ⟨hmal, hshape⟩
  · rw [bind?_of_plain hshape]
    simp [hnot]
  · rw [bind?, hshape]
    simp [hnot]
  · rw [bind?, hshape]
    simp [hmal]

/-- As many arguments as are taken, each bound once and in order. -/
theorem bind?_of_takes {params : List String} {args : List Value} (hnot : ¬Malformed params)
    (h : Takes params args.length) :
    (restMarker ∉ params ∧ params.length = args.length ∧
      bind? params args = .ok (some (params.zip args))) ∨
    (∃ leading rest trailing front middle back,
      params = leading ++ restMarker :: rest :: trailing ∧ args = front ++ (middle ++ back) ∧
      front.length = leading.length ∧ back.length = trailing.length ∧
      bind? params args =
        .ok (some (leading.zip front ++ trailing.zip back ++ [(rest, .list middle)]))) := by
  rcases shape_cases params with ⟨hmem, -, hshape⟩ | ⟨leading, rest, trailing, hparams, -, hshape⟩ |
    ⟨hmal, -⟩
  · rw [Takes, if_neg hmem] at h
    refine .inl ⟨hmem, h.symm, ?_⟩
    rw [bind?_of_plain hshape, if_pos h.symm]
  · have hlength : leading.length + trailing.length ≤ args.length := by
      rw [Takes, if_pos (by simp [hparams]), hparams] at h
      simp only [List.length_append, List.length_cons] at h
      omega
    have hsplit : args = args.take leading.length ++
        ((args.drop leading.length).take (args.length - leading.length - trailing.length) ++
          (args.drop leading.length).drop (args.length - leading.length - trailing.length)) := by
      rw [List.take_append_drop, List.take_append_drop]
    have hfront : (args.take leading.length).length = leading.length := by
      rw [List.length_take]
      omega
    have hback : ((args.drop leading.length).drop
        (args.length - leading.length - trailing.length)).length = trailing.length := by
      rw [List.length_drop, List.length_drop]
      omega
    refine .inr ⟨leading, rest, trailing, _, _, _, hparams, hsplit, hfront, hback, ?_⟩
    conv_lhs => rw [hsplit]
    exact bind?_of_rest hshape hfront hback
  · exact absurd hmal hnot

theorem bind?_of_not_takes {params : List String} {args : List Value} (hnot : ¬Malformed params)
    (h : ¬Takes params args.length) : bind? params args = .ok none := by
  rcases shape_cases params with ⟨hmem, -, hshape⟩ | ⟨leading, rest, trailing, hparams, -, hshape⟩ |
    ⟨hmal, -⟩
  · rw [Takes, if_neg hmem] at h
    rw [bind?_of_plain hshape, if_neg (Ne.symm h)]
  · rw [Takes, if_pos (by simp [hparams]), hparams] at h
    refine bind?_of_few hshape ?_
    simp only [List.length_append, List.length_cons] at h
    omega
  · exact absurd hmal hnot

theorem fst_mem_of_zip (names : List String) (args : List Value) :
    ∀ name ∈ (names.zip args).map Prod.fst, name ∈ names := by
  intro name hname
  obtain ⟨⟨_, v⟩, hmem, rfl⟩ := List.mem_map.1 hname
  exact (List.of_mem_zip hmem).1

/-- Nothing but parameters is bound. -/
theorem names_subset {params : List String} {args : List Value} {bound : List (String × Value)}
    (h : bind? params args = .ok (some bound)) : bound.map Prod.fst ⊆ params := by
  rcases shape_cases params with ⟨-, -, hshape⟩ | ⟨leading, rest, trailing, rfl, -, hshape⟩ |
    ⟨-, hshape⟩
  · rw [bind?_of_plain hshape] at h
    split at h <;> cases h
    exact fst_mem_of_zip params args
  · rw [bind?, hshape] at h
    dsimp only at h
    split at h <;> cases h
    have hleading := fst_mem_of_zip leading args
    have htrailing := fst_mem_of_zip trailing
      ((args.drop leading.length).drop (args.length - leading.length - trailing.length))
    rw [List.map_append, List.map_append]
    grind
  · rw [bind?, hshape] at h
    cases h

/-- Binding fails exactly for a malformed list and otherwise succeeds exactly if the number of
arguments is taken. Then the values of the leading parameters, the items of the rest and the values
of the trailing parameters are the arguments in order, all of them cut within bounds; the bindings
come as leading, trailing and rest, and in a scope under them the last for a name counts. -/
theorem bind_keeps_arguments (params : List String) (args : List Value) :
    (bind? params args = .error .restMarker ↔ Malformed params) ∧
    (¬Malformed params →
      ((∃ bound, bind? params args = .ok (some bound)) ↔ Takes params args.length) ∧
      (bind? params args = .ok none ↔ ¬Takes params args.length)) ∧
    ∀ bound, bind? params args = .ok (some bound) →
      (restMarker ∉ params → bound.map Prod.fst = params ∧ bound.map Prod.snd = args) ∧
      (restMarker ∈ params → ∃ leading rest trailing front middle back,
        params = leading ++ restMarker :: rest :: trailing ∧
        bound = leading.zip front ++ trailing.zip back ++ [(rest, .list middle)] ∧
        front.length = leading.length ∧ back.length = trailing.length ∧
        front ++ (middle ++ back) = args ∧
        trailing.length ≤ args.length ∧ leading.length ≤ args.length - trailing.length) ∧
      ∀ (scope : Bindings) name,
        (scope.layer bound).get? name =
          (Bindings.find bound.reverse name).or (scope.get? name) := by
  have htaken (hnot : ¬Malformed params) :
      (∃ bound, bind? params args = .ok (some bound)) ↔ Takes params args.length := by
    constructor
    · rintro ⟨bound, hbound⟩
      by_contra h
      rw [bind?_of_not_takes hnot h] at hbound
      cases hbound
    · intro h
      rcases bind?_of_takes hnot h with ⟨-, -, hbound⟩ | ⟨_, _, _, _, _, _, -, -, -, -, hbound⟩
      · exact ⟨_, hbound⟩
      · exact ⟨_, hbound⟩
  refine ⟨bind?_eq_error_iff params args, fun hnot => ⟨htaken hnot, ?_⟩, fun bound hbound => ?_⟩
  · refine ⟨fun hnone h => ?_, bind?_of_not_takes hnot⟩
    obtain ⟨bound, hbound⟩ := (htaken hnot).2 h
    cases hnone.symm.trans hbound
  · have hnot : ¬Malformed params := by
      intro hmal
      cases ((bind?_eq_error_iff params args).2 hmal).symm.trans hbound
    have hscope (scope : Bindings) (name : String) := scope.get?_layer bound name
    rcases bind?_of_takes hnot ((htaken hnot).1 ⟨bound, hbound⟩) with ⟨hmem, hlength, hzip⟩ |
      ⟨leading, rest, trailing, front, middle, back, hparams, rfl, hfront, hback, hrest⟩
    · cases hzip.symm.trans hbound
      exact ⟨fun _ => ⟨List.map_fst_zip hlength.le, List.map_snd_zip hlength.ge⟩,
        fun h => absurd h hmem, hscope⟩
    · cases hrest.symm.trans hbound
      refine ⟨fun h => absurd (by simp [hparams]) h, fun _ => ?_, hscope⟩
      refine ⟨leading, rest, trailing, front, middle, back, hparams, rfl, hfront, hback, rfl, ?_⟩
      simp only [List.length_append]
      omega

/-- Four arguments for `[a & a b]`: the name that stands twice has the rest. -/
theorem bind_keeps_arguments_repeated :
    let params := ["a", "&", "a", "b"]
    let args : List Value := [.bool true, .nil, .text "m", .bool false]
    ∃ bound, bind? params args = .ok (some bound) ∧ ¬Malformed params ∧
      bound = [("a", .bool true), ("b", .bool false), ("a", .list [.nil, .text "m"])] ∧
      ((Bindings.empty.layer bound).get? "a" = some (.list [.nil, .text "m"])) ∧
      bind? ["a", "&"] args = .error .restMarker := by
  intro params args
  have hnot : ¬Malformed params := by
    unfold Malformed
    decide
  have htakes : Takes params args.length := by
    unfold Takes
    decide
  obtain ⟨-, hcount, hbound⟩ := bind_keeps_arguments params args
  obtain ⟨bound, hb⟩ := (hcount hnot).1.2 htakes
  obtain ⟨-, -, hscope⟩ := hbound bound hb
  refine ⟨bound, hb, hnot, ?_, ?_, (bind_keeps_arguments _ _).1.2 (.inr rfl)⟩
  · cases hb
    rfl
  · rw [hscope]
    cases hb
    rfl

end Params

end Lisplet
