import Lisplet.Proofs.Likeness
import Lisplet.Proofs.Plans

/-!
Calls on like values. Primitives, fields, methods and members of namespaces that are called on like
arguments, with like heaps, come out as like effects or fail for the same cause; and like effects
leave like heaps behind, in which all tables that the likeness is not about are as before.
-/

namespace Lisplet

variable {k : Likeness}

/-- The same cause, or results that are related. -/
inductive Answers {α β : Type} (Q : α → β → Prop) : Except Cause α → Except Cause β → Prop
  | ok {a : α} {b : β} (h : Q a b) : Answers Q (.ok a) (.ok b)
  | error (cause : Cause) : Answers Q (.error cause) (.error cause)

namespace Answers

variable {α β γ δ : Type} {Q : α → β → Prop} {R : γ → δ → Prop}

theorem bind {x : Except Cause γ} {y : Except Cause δ} {f : γ → Except Cause α}
    {g : δ → Except Cause β} (hx : Answers R x y) (hf : ∀ c d, R c d → Answers Q (f c) (g d)) :
    Answers Q (x >>= f) (y >>= g) := by
  cases hx with
  | ok h => exact hf _ _ h
  | error cause => exact error cause

theorem bindEq {x y : Except Cause γ} {f : γ → Except Cause α} {g : γ → Except Cause β}
    (hx : x = y) (hf : ∀ c, Answers Q (f c) (g c)) : Answers Q (x >>= f) (y >>= g) := by
  subst hx
  cases x with
  | ok c => exact hf c
  | error cause => exact error cause

theorem map {x : Except Cause γ} {y : Except Cause δ} {f : γ → α} {g : δ → β}
    (hx : Answers R x y) (hf : ∀ c d, R c d → Q (f c) (g d)) : Answers Q (f <$> x) (g <$> y) := by
  cases hx with
  | ok h => exact ok (hf _ _ h)
  | error cause => exact error cause

theorem foldlM {f : α → γ → Except Cause α} {g : β → δ → Except Cause β}
    (hf : ∀ a b c d, Q a b → R c d → Answers Q (f a c) (g b d)) {cs : List γ} {ds : List δ}
    (h : List.Forall₂ R cs ds) {a : α} {b : β} (hab : Q a b) :
    Answers Q (cs.foldlM f a) (ds.foldlM g b) := by
  induction h generalizing a b with
  | nil => exact ok hab
  | cons hcd _ ih => exact bind (hf _ _ _ _ hab hcd) fun _ _ h => ih h

end Answers

theorem getElem?_rel_of_forall₂ {α β : Type} {R : α → β → Prop} {xs : List α} {ys : List β}
    (h : List.Forall₂ R xs ys) (i : Nat) : Option.Rel R xs[i]? ys[i]? := by
  induction h generalizing i with
  | nil => exact .none
  | cons hab _ ih =>
    cases i with
    | zero => exact .some hab
    | succ i => exact ih i

theorem Value.Like.getD {v w : Option Value} (h : Option.Rel (Value.Like k) v w) :
    (v.getD .nil).Like k (w.getD .nil) := by
  cases h with
  | none => exact .nil
  | some h => exact h

theorem Value.Like.char? (c : Option Char) :
    ((c.map Value.ofChar).getD .nil).Like k ((c.map Value.ofChar).getD .nil) := by
  cases c with
  | none => exact .nil
  | some c => exact .text _

inductive Effect.Like (k : Likeness) : Effect → Effect → Prop
  | give {v w : Value} (h : v.Like k w) : Like k (.give v) (.give w)
  | make {t t' : Table} (h : t.Like k t') : Like k (.make t) (.make t')
  | change {id : TableId} (hid : k.table id) {t t' : Table} (ht : t.Like k t') {v w : Value}
      (hv : v.Like k w) : Like k (.change id t v) (.change id t' w)
  | write (channel : Channel) (line : String) : Like k (.write channel line) (.write channel line)
  | build (j : Json) : Like k (.build j) (.build j)

/-- A call gives like values, or fails for the same cause. -/
abbrev LikeValues (k : Likeness) := Answers (Value.Like k)

abbrev LikeEffects (k : Likeness) := Answers (Effect.Like k)

theorem LikeValues.give {x y : Except Cause Value} (h : LikeValues k x y) :
    LikeEffects k (.give <$> x) (.give <$> y) :=
  h.map fun _ _ => .give

/-! Primitives. -/

namespace Primitive

variable {h h' : Heap} {v v' w w' : Value} {vs vs' : List Value}

theorem number_like (op : Primitive) (hv : v.Like k v') : op.number v = op.number v' := by
  cases hv <;> rfl

theorem addPair_like (hh : h.Like k h') (hv : v.Like k v') (hw : w.Like k w') :
    LikeValues k (addPair h v w) (addPair h' v' w') := by
  have hdv := hh.display hv
  have hdw := hh.display hw
  cases hv with
  | number x =>
    cases hw with
    | number y => exact .ok (.number _)
    | text s =>
      simp only [addPair, hdv]
      exact .ok (.text _)
    | _ => exact .error _
  | text s =>
    simp only [addPair, hdw]
    exact .ok (.text _)
  | _ =>
    cases hw with
    | text s =>
      simp only [addPair, hdv]
      exact .ok (.text _)
    | _ => exact .error _

theorem addAll_like (hh : h.Like k h') (hv : v.Like k v')
    (hvs : List.Forall₂ (Value.Like k) vs vs') :
    LikeValues k (addAll h v vs) (addAll h' v' vs') := by
  cases hvs with
  | nil =>
    cases hv with
    | number x => exact .ok (.number x)
    | text s => exact .ok (.text s)
    | _ => exact .error _
  | cons hw hws =>
    exact .foldlM (R := Value.Like k) (fun _ _ _ _ => addPair_like hh) (.cons hw hws) hv

theorem combine_like (op : Primitive) (f : Number → Number → Number) (hv : v.Like k v')
    (hvs : List.Forall₂ (Value.Like k) vs vs') :
    LikeValues k (combine op f v vs) (combine op f v' vs') := by
  refine .bindEq (op.number_like hv) fun x => ?_
  refine .bind (R := Eq) (.foldlM (fun x y v w hxy hvw => ?_) hvs rfl) fun x y hxy => ?_
  · subst hxy
    exact .bindEq (op.number_like hvw) fun y => .ok rfl
  · subst hxy
    exact .ok (.number x)

theorem compare_like (hv : v.Like k v') (hw : w.Like k w') : compare v w = compare v' w' := by
  cases hv <;> cases hw <;> rfl

theorem index?_like (hv : v.Like k v') : index? v = index? v' := by
  cases hv <;> rfl

theorem lookUp_like (hh : h.Like k h') (hw : w.Like k w') (hv : v.Like k v') :
    LikeValues k (lookUp h w v) (lookUp h' w' v') := by
  cases hv with
  | nil =>
    simp only [lookUp, hh.inspect hw]
    exact .error _
  | text s =>
    simp only [lookUp, index?_like hw]
    exact .ok (.char? _)
  | list hitems =>
    simp only [lookUp, index?_like hw]
    cases index? w' with
    | none => exact .ok .nil
    | some i => exact .ok (.getD (getElem?_rel_of_forall₂ hitems i))
  | table hid => exact .ok (.getD ((hh.get hid).get? hw))
  | _ => exact .ok .nil

theorem first_like (hv : v.Like k v') : LikeValues k (first v) (first v') := by
  cases hv with
  | text s => exact .ok (.char? _)
  | list hitems =>
    cases hitems with
    | nil => exact .ok .nil
    | cons hv _ => exact .ok hv
  | _ => exact .error _

theorem others_like (hv : v.Like k v') : LikeValues k (others v) (others v') := by
  cases hv with
  | text s => exact .ok (.text _)
  | list hitems =>
    cases hitems with
    | nil => exact .ok (.list .nil)
    | cons _ hvs => exact .ok (.list hvs)
  | _ => exact .error _

theorem prepend_like (hv : v.Like k v') (hw : w.Like k w') :
    LikeValues k (prepend v w) (prepend v' w') := by
  cases hw with
  | text s => exact .ok (.list (.cons hv (Value.Like.texts String.singleton s.toList)))
  | list hitems => exact .ok (.list (.cons hv hitems))
  | _ => exact .error _

theorem flatItems_like (hv : v.Like k v') :
    Answers (List.Forall₂ (Value.Like k)) (flatItems v) (flatItems v') := by
  cases hv with
  | list hitems => exact .ok hitems
  | _ => exact .error _

theorem arity_like (op : Primitive) (hlength : vs.length = vs'.length) :
    LikeEffects k (.error (.arity op.name op.arity vs.length))
      (.error (.arity op.name op.arity vs'.length)) := by
  rw [hlength]
  exact .error _

theorem plan_like (hh : h.Like k h') (op : Primitive) (hvs : List.Forall₂ (Value.Like k) vs vs') :
    LikeEffects k (plan h op vs) (plan h' op vs') := by
  have harity := arity_like (k := k) op hvs.length_eq
  have hprint : LikeEffects k (plan h .print vs) (plan h' .print vs') := by
    simp only [plan, hh.displayAll hvs]
    exact .ok (.write _ _)
  have hdie : LikeEffects k (plan h .die vs) (plan h' .die vs') := by
    simp only [plan, hh.displayAll hvs]
    exact .error _
  -- by the number of arguments, since that is what each primitive looks at first
  rcases hvs with _ | ⟨hv, _ | ⟨hw, _ | ⟨hu, hvs⟩⟩⟩
  · cases op with
    | print => exact hprint
    | die => exact hdie
    | _ => exact harity
  · cases op with
    | add => exact (addAll_like hh hv .nil).give
    | mul => exact (combine_like mul _ hv .nil).give
    | div => exact (combine_like div _ (.number 1) (.cons hv .nil)).give
    | floor =>
      exact LikeValues.give (.bindEq (floor.number_like hv) fun x => .ok (.number _))
    | head => exact (first_like hv).give
    | tail => exact (others_like hv).give
    | table =>
      exact .bind (flatItems_like hv) fun _ _ hitems =>
        .ok (.make (.ofEntries (Table.Like.pairUp hitems)))
    | kind =>
      simp only [plan, hv.kind]
      exact .ok (.give (.text _))
    | print => exact hprint
    | die => exact hdie
    | _ => exact harity
  · cases op with
    | add => exact (addAll_like hh hv (.cons hw .nil)).give
    | mul => exact (combine_like mul _ hv (.cons hw .nil)).give
    | div => exact (combine_like div _ hv (.cons hw .nil)).give
    | rem => exact (combine_like rem _ hv (.cons hw .nil)).give
    | less =>
      exact LikeValues.give (.bindEq (compare_like hv hw) fun b => .ok (.bool b))
    | equal =>
      simp only [plan, hv.loose hw]
      exact .ok (.give (.bool _))
    | cons => exact (prepend_like hv hw).give
    | subscript => exact (lookUp_like hh hw hv).give
    | print => exact hprint
    | die => exact hdie
    | _ => exact harity
  · have hrest : List.Forall₂ (Value.Like k) (_ :: _ :: _) (_ :: _ :: _) := .cons hw (.cons hu hvs)
    cases op with
    | add => exact (addAll_like hh hv hrest).give
    | mul => exact (combine_like mul _ hv hrest).give
    | div => exact (combine_like div _ hv hrest).give
    | print => exact hprint
    | die => exact hdie
    | _ => exact harity

end Primitive

/-! Members of objects and namespaces. -/

structure HostCall.Like (k : Likeness) (c c' : HostCall) : Prop where
  path : c.path = c'.path
  args : List.Forall₂ (Value.Like k) c.args c'.args

namespace HostCall.Like

variable {c c' : HostCall} (hc : c.Like k c') {v v' : Value}

include hc

theorem fail {α β : Type} {Q : α → β → Prop} (fault : HostFault) :
    Answers Q (c.fail fault) (c'.fail fault) := by
  unfold HostCall.fail
  rw [hc.path]
  exact .error _

theorem number (hv : v.Like k v') : c.number v = c'.number v' := by
  cases hv <;> simp only [HostCall.number, HostCall.fail, hc.path, Value.kind]

theorem text (hv : v.Like k v') : c.text v = c'.text v' := by
  cases hv <;> simp only [HostCall.text, HostCall.fail, hc.path, Value.kind]

theorem index (hv : v.Like k v') : c.index v = c'.index v' := by
  simp only [HostCall.index, hc.number hv, HostCall.fail, hc.path]

theorem arg (i : Nat) : LikeValues k (c.arg i) (c'.arg i) := by
  have hi := getElem?_rel_of_forall₂ hc.args i
  unfold HostCall.arg
  generalize c.args[i]? = v, c'.args[i]? = v' at hi
  cases hi with
  | some hv => exact .ok hv
  | none => exact hc.fail _

/-- A check that like values pass or fail alike. -/
theorem argThen {α : Type} (i : Nat) {f g : Value → Except Cause α}
    (hf : ∀ {v w}, v.Like k w → f v = g w) : (c.arg i >>= f) = (c'.arg i >>= g) := by
  have hi := hc.arg i
  generalize c.arg i = x, c'.arg i = y at hi ⊢
  cases hi with
  | ok hv => exact hf hv
  | error cause => rfl

theorem numberArg (i : Nat) : c.numberArg i = c'.numberArg i :=
  hc.argThen i hc.number

theorem textArg (i : Nat) : c.textArg i = c'.textArg i :=
  hc.argThen i hc.text

theorem positionArg (length i default : Nat) :
    c.positionArg length i default = c'.positionArg length i default := by
  have hi := getElem?_rel_of_forall₂ hc.args i
  unfold HostCall.positionArg
  generalize c.args[i]? = v, c'.args[i]? = v' at hi
  cases hi with
  | some hv => simp only [hc.number hv]
  | none => rfl

theorem bounds (length : Nat) : c.bounds length = c'.bounds length := by
  simp only [HostCall.bounds, hc.positionArg]

theorem slice {α β : Type} {R : α → β → Prop} {xs : List α} {ys : List β}
    (h : List.Forall₂ R xs ys) : Answers (List.Forall₂ R) (c.slice xs) (c'.slice ys) := by
  unfold HostCall.slice
  rw [h.length_eq]
  exact .bindEq (hc.bounds _) fun p => .ok (List.forall₂_drop _ (List.forall₂_take _ h))

end HostCall.Like

namespace Host

variable {h h' : Heap} {c c' : HostCall}

theorem field_like (hh : h.Like k h') {v v' : Value} (hv : v.Like k v') (name : String) :
    LikeValues k (field h v name) (field h' v' name) := by
  by_cases hl : name = "length"
  · subst hl
    cases hv with
    | text s => exact .ok (.number _)
    | list hitems =>
      simp only [field, hitems.length_eq]
      exact .ok (.number _)
    | _ => exact .error _
  · by_cases hs : name = "size"
    · subst hs
      cases hv with
      | table hid =>
        simp only [field, (hh.get hid).length_eq]
        exact .ok (.number _)
      | _ => exact .error _
    · cases hv <;> simp only [field, hl, hs, imp_self, implies_true] <;> exact .error _

theorem ofIndex?_like (i : Option Nat) : (ofIndex? i).Like k (ofIndex? i) := by
  cases i with
  | none => exact .number _
  | some i => exact .number _

theorem textMethod_like (hh : h.Like k h') (hc : c.Like k c') (s name : String) :
    LikeValues k (textMethod h c s name) (textMethod h' c' s name) := by
  have hslice := hc.slice (R := Eq) (List.forall₂_refl s.toList)
  unfold textMethod
  split
  · exact .ok (.text _)
  · exact .ok (.text _)
  · exact .ok (.text _)
  · exact .bindEq (hc.textArg 0) fun sep => .ok (.list (Value.Like.texts _ _))
  · exact .bindEq (hc.textArg 0) fun _ => .ok (.bool _)
  · exact .bindEq (hc.textArg 0) fun _ => .ok (.bool _)
  · exact .bindEq (hc.textArg 0) fun _ => .ok (.bool _)
  · refine .bind hslice fun cs cs' hcs => ?_
    rw [List.forall₂_eq_eq_eq] at hcs
    exact hcs ▸ .ok (.text _)
  · exact .bindEq (hc.textArg 0) fun _ => .ok (ofIndex?_like _)
  · exact .bindEq (hc.argThen 0 hc.index) fun _ => .ok (.text _)
  · rw [map_eq_of_forall₂ hc.args fun _ _ => hh.display]
    exact .ok (.text _)
  · exact hc.fail _

theorem joinText_like (hh : h.Like k h') {v w : Value} (hv : v.Like k w) :
    joinText h v = joinText h' w := by
  have hdisplay := hh.display hv
  cases hv with
  | nil => rfl
  | _ => exact hdisplay

theorem spreadItems_like {v w : Value} (hv : v.Like k w) :
    List.Forall₂ (Value.Like k) (spreadItems v) (spreadItems w) := by
  have hself : List.Forall₂ (Value.Like k) [v] [w] := .cons hv .nil
  cases hv with
  | list hitems => exact hitems
  | _ => exact hself

theorem listMethod_like (hh : h.Like k h') (hc : c.Like k c') {items items' : List Value}
    (hitems : List.Forall₂ (Value.Like k) items items') (name : String) :
    LikeValues k (listMethod h c items name) (listMethod h' c' items' name) := by
  unfold listMethod
  split
  · rw [map_eq_of_forall₂ hitems fun _ _ => joinText_like hh]
    have hargs := hc.args
    dsimp only
    generalize c.args = vs, c'.args = vs' at hargs ⊢
    cases hargs with
    | nil => exact .ok (.text _)
    | cons hv _ => exact .bindEq (hc.text hv) fun _ => .ok (.text _)
  · exact .bind (hc.slice hitems) fun _ _ h => .ok (.list h)
  · exact .ok (.list (List.rel_append hitems
      (List.rel_flatMap hc.args fun _ _ => spreadItems_like)))
  · refine .bind (hc.arg 0) fun needle needle' hneedle => ?_
    have hsame := map_eq_of_forall₂ hitems fun _ _ hv => hv.same hneedle
    have hfound := congrArg (List.findIdx? id) hsame
    simp only [List.findIdx?_map, Function.id_comp] at hfound
    rw [hfound]
    exact .ok (ofIndex?_like _)
  · refine .bind (hc.arg 0) fun needle needle' hneedle => ?_
    have hsame := map_eq_of_forall₂ hitems fun _ _ hv => hv.sameKey hneedle
    have hfound := congrArg (List.any · id) hsame
    simp only [List.any_map, Function.id_comp] at hfound
    rw [hfound]
    exact .ok (.bool _)
  · exact .ok (.list (List.rel_reverse hitems))
  · exact hc.fail _

theorem numberMethod_like (hc : c.Like k c') (x : Number) (name : String) :
    LikeValues k (numberMethod c x name) (numberMethod c' x name) := by
  have hfixed (digits : Nat) : LikeValues k
      (if 100 < digits then c.fail .tooManyDigits else .ok (.text (x.fixed digits)))
      (if 100 < digits then c'.fail .tooManyDigits else .ok (.text (x.fixed digits))) := by
    split
    · exact hc.fail _
    · exact .ok (.text _)
  unfold numberMethod
  split
  · have hargs := hc.args
    dsimp only
    generalize c.args = vs, c'.args = vs' at hargs ⊢
    cases hargs with
    | nil => exact hfixed 0
    | cons hv _ => exact .bindEq (hc.index hv) hfixed
  · exact .ok (.text _)
  · exact hc.fail _

theorem tablePlan_like (hh : h.Like k h') (hc : c.Like k c') {id : TableId} (hid : k.table id)
    (name : String) : LikeEffects k (tablePlan h c id name) (tablePlan h' c' id name) := by
  have ht := hh.get hid
  have hdelete {key key' : Value} (hkey : key.Like k key') :
      LikeEffects k (.ok (.change id ((h.get id).erase key) (.bool ((h.get id).has key))))
        (.ok (.change id ((h'.get id).erase key') (.bool ((h'.get id).has key')))) := by
    rw [ht.has hkey]
    exact .ok (.change hid (ht.erase hkey) (.bool _))
  unfold tablePlan
  split
  · exact .bind (hc.arg 0) fun _ _ hkey => .ok (.give (.getD (ht.get? hkey)))
  · exact .bind (hc.arg 0) fun _ _ hkey => .bind (hc.arg 1) fun _ _ hvalue =>
      .ok (.change hid (ht.set hkey hvalue) (.table hid))
  · refine .bind (hc.arg 0) fun _ _ hkey => ?_
    rw [ht.has hkey]
    exact .ok (.give (.bool _))
  · exact .bind (hc.arg 0) fun _ _ => hdelete
  · exact .bind (hc.arg 0) fun _ _ => hdelete
  · exact .ok (.give (.list ht.keys))
  · exact .ok (.give (.list ht.values))
  · exact hc.fail _

theorem methodPlan_like (hh : h.Like k h') {v v' : Value} (hv : v.Like k v')
    {args args' : List Value}
    (hargs : List.Forall₂ (Value.Like k) args args') (name : String) :
    LikeEffects k (methodPlan h v name args) (methodPlan h' v' name args') := by
  have hc : HostCall.Like k ⟨"." ++ name, args⟩ ⟨"." ++ name, args'⟩ := ⟨rfl, hargs⟩
  cases hv with
  | table hid => exact tablePlan_like hh hc hid name
  | text s => exact (textMethod_like hh hc s name).give
  | list hitems => exact (listMethod_like hh hc hitems name).give
  | number x => exact (numberMethod_like hc x name).give
  | _ => exact hc.fail _

theorem unary_like (hc : c.Like k c') (f : Number → Number) :
    LikeValues k (unary c f) (unary c' f) :=
  .bindEq (hc.numberArg 0) fun x => .ok (.number (f x))

theorem extreme_like (hc : c.Like k c') (better : Number → Number → Bool) (best : Number)
    {vs vs' : List Value} (hvs : List.Forall₂ (Value.Like k) vs vs') :
    LikeValues k (extreme c better best vs) (extreme c' better best vs') := by
  induction hvs generalizing best with
  | nil => exact .ok (.number _)
  | cons hv _ ih =>
    refine .bindEq (hc.number hv) fun x => ?_
    split
    · exact .ok (.number x)
    · exact ih _

theorem math_like (hc : c.Like k c') (name : String) :
    LikeValues k (math c name) (math c' name) := by
  unfold math
  split
  · exact unary_like hc _
  · exact unary_like hc _
  · exact unary_like hc _
  · exact unary_like hc _
  · exact unary_like hc _
  · exact unary_like hc _
  · exact unary_like hc _
  · exact .bindEq (hc.numberArg 0) fun _ => .bindEq (hc.numberArg 1) fun _ => .ok (.number _)
  · exact extreme_like hc _ _ hc.args
  · exact extreme_like hc _ _ hc.args
  · exact hc.fail _

theorem numbers_like (hh : h.Like k h') (hc : c.Like k c') (name : String) :
    LikeValues k (numbers h c name) (numbers h' c' name) := by
  unfold numbers
  split
  · refine .bind (hc.arg 0) fun v w hv => ?_
    rw [hh.display hv]
    exact .ok (.number _)
  · refine .bind (hc.arg 0) fun v w hv => ?_
    cases hv <;> exact .ok (.bool _)
  · refine .bind (hc.arg 0) fun v w hv => ?_
    cases hv <;> exact .ok (.bool _)
  · exact hc.fail _

theorem texts_like (hc : c.Like k c') (name : String) :
    LikeValues k (texts c name) (texts c' name) := by
  have hcodes : c.args.mapM c.number = c'.args.mapM c'.number := by
    have hargs := hc.args
    generalize c.args = vs, c'.args = vs' at hargs
    induction hargs with
    | nil => rfl
    | cons hv _ ih => rw [List.mapM_cons, List.mapM_cons, hc.number hv, ih]
  unfold texts
  split
  · exact .bindEq hcodes fun _ => .ok (.text _)
  · exact hc.fail _

theorem stringified_like (hh : h.Like k h') (hc : c.Like k c') :
    LikeValues k (stringified h c) (stringified h' c') := by
  refine .bind (hc.arg 0) fun v w hv => ?_
  rw [hh.json? hv]
  split
  · exact .ok (.text _)
  · exact hc.fail _

theorem document_like (hc : c.Like k c') : Answers Eq (document c) (document c') := by
  refine .bindEq (hc.textArg 0) fun s => ?_
  split
  · exact .ok rfl
  · exact hc.fail _

theorem jsonPlan_like (hh : h.Like k h') (hc : c.Like k c') (name : String) :
    LikeEffects k (jsonPlan h c name) (jsonPlan h' c' name) := by
  unfold jsonPlan
  split
  · exact (stringified_like hh hc).give
  · refine .bind (document_like hc) fun j j' hj => ?_
    obtain rfl := hj
    exact .ok (.build j)
  · exact hc.fail _

theorem consolePlan_like (hh : h.Like k h') (hc : c.Like k c') (name : String) :
    LikeEffects k (consolePlan h c name) (consolePlan h' c' name) := by
  unfold consolePlan
  rw [hh.displayAll hc.args]
  split
  · exact .ok (.write _ _)
  · exact .ok (.write _ _)
  · exact hc.fail _

theorem scopePlan_like (hh : h.Like k h') (hc : c.Like k c') (member scope : String) :
    LikeEffects k (scopePlan h c member scope) (scopePlan h' c' member scope) := by
  unfold scopePlan
  split
  · exact (math_like hc member).give
  · exact (numbers_like hh hc member).give
  · exact (texts_like hc member).give
  · exact jsonPlan_like hh hc member
  · exact consolePlan_like hh hc member
  · exact hc.fail _

theorem globalPlan_like (access : Access) (hh : h.Like k h') (path : List String)
    {args args' : List Value} (hargs : List.Forall₂ (Value.Like k) args args') :
    LikeEffects k (globalPlan access h path args) (globalPlan access h' path args') := by
  have hc : HostCall.Like k ⟨"/".intercalate path, args⟩ ⟨"/".intercalate path, args'⟩ :=
    ⟨rfl, hargs⟩
  unfold globalPlan
  dsimp only
  split
  · split
    · exact scopePlan_like hh hc _ _
    · exact hc.fail _
  · exact hc.fail _

theorem memberPlan_like (access : Access) (hh : h.Like k h') (m : Member)
    {args args' : List Value} (hargs : List.Forall₂ (Value.Like k) args args') :
    LikeEffects k (memberPlan access h m args) (memberPlan access h' m args') := by
  cases m with
  | field name =>
    cases hargs with
    | nil => exact .error _
    | cons hv _ => exact (field_like hh hv name).give
  | method name =>
    cases hargs with
    | nil => exact .error _
    | cons hv hrest => exact methodPlan_like hh hv hrest name
  | global path => exact globalPlan_like access hh path hargs

end Host

/-! What effects leave behind. -/

mutual

theorem Json.build_like {h h' : Heap} (hh : h.Like k h') (j : Json) :
    (j.build h).1.Like k (j.build h').1 ∧ (j.build h).2.Like k (j.build h').2 := by
  cases j with
  | null => exact ⟨.nil, hh⟩
  | bool b => exact ⟨.bool b, hh⟩
  | number x => exact ⟨.number x, hh⟩
  | text s => exact ⟨.text s, hh⟩
  | array items =>
    obtain ⟨hvs, hheap⟩ := Json.buildAll_like hh items
    exact ⟨.list hvs, hheap⟩
  | object members =>
    obtain ⟨hentries, hheap⟩ := Json.buildMembers_like hh members
    exact ⟨hheap.value_size, hheap.push (.ofEntries hentries)⟩

theorem Json.buildAll_like {h h' : Heap} (hh : h.Like k h') (js : List Json) :
    List.Forall₂ (Value.Like k) (Json.buildAll h js).1 (Json.buildAll h' js).1 ∧
      (Json.buildAll h js).2.Like k (Json.buildAll h' js).2 := by
  cases js with
  | nil => exact ⟨.nil, hh⟩
  | cons j js =>
    obtain ⟨hv, hheap⟩ := Json.build_like hh j
    obtain ⟨hvs, hheap⟩ := Json.buildAll_like hheap js
    exact ⟨.cons hv hvs, hheap⟩

theorem Json.buildMembers_like {h h' : Heap} (hh : h.Like k h')
    (members : List (String × Json)) :
    List.Forall₂ (Entry.Like k) (Json.buildMembers h members).1
        (Json.buildMembers h' members).1 ∧
      (Json.buildMembers h members).2.Like k (Json.buildMembers h' members).2 := by
  cases members with
  | nil => exact ⟨.nil, hh⟩
  | cons member members =>
    obtain ⟨name, j⟩ := member
    obtain ⟨hv, hheap⟩ := Json.build_like hh j
    obtain ⟨hentries, hheap⟩ := Json.buildMembers_like hheap members
    exact ⟨.cons ⟨.text name, hv⟩ hentries, hheap⟩

end

/-- Tables have been added, and all others are as they were. -/
structure Heap.Grows (h h' : Heap) : Prop where
  size : h.size ≤ h'.size
  get {id : TableId} (hid : id < h.size) : h'.get id = h.get id

namespace Heap.Grows

theorem refl (h : Heap) : h.Grows h := ⟨Nat.le_refl _, fun _ => rfl⟩

theorem trans {h h' h'' : Heap} (hg : h.Grows h') (hg' : h'.Grows h'') : h.Grows h'' where
  size := Nat.le_trans hg.size hg'.size
  get hid := (hg'.get (Nat.lt_of_lt_of_le hid hg.size)).trans (hg.get hid)

theorem push (h : Heap) (t : Table) : h.Grows (h.push t) where
  size := by simp
  get hid := by rw [get_push, if_neg (Nat.ne_of_lt hid)]

end Heap.Grows

mutual

theorem Json.build_grows (h : Heap) (j : Json) : h.Grows (j.build h).2 := by
  cases j with
  | null => exact .refl h
  | bool b => exact .refl h
  | number x => exact .refl h
  | text s => exact .refl h
  | array items => exact Json.buildAll_grows h items
  | object members => exact (Json.buildMembers_grows h members).trans (.push _ _)

theorem Json.buildAll_grows (h : Heap) (js : List Json) : h.Grows (Json.buildAll h js).2 := by
  cases js with
  | nil => exact .refl h
  | cons j js => exact (Json.build_grows h j).trans (Json.buildAll_grows _ js)

theorem Json.buildMembers_grows (h : Heap) (members : List (String × Json)) :
    h.Grows (Json.buildMembers h members).2 := by
  cases members with
  | nil => exact .refl h
  | cons member members =>
    obtain ⟨name, j⟩ := member
    exact (Json.build_grows h j).trans (Json.buildMembers_grows _ members)

end

namespace Effect

/-- The heap after the effect. -/
def heap (h : Heap) : Effect → Heap
  | give _ | write .. => h
  | make t => h.push t
  | change id t _ => h.put id t
  | build j => (j.build h).2

/-- The value that the effect gives. -/
def value (h : Heap) : Effect → Value
  | give v => v
  | make _ => .table h.size
  | change _ _ v => v
  | write .. => .nil
  | build j => (j.build h).1

/-- The session after the effect, also where a line was refused. -/
def after (s : Session) : Effect → Session
  | write channel line => s.hand channel line
  | e => { s with heap := e.heap s.heap }

/-- Why the effect fails, if it does: a device may refuse a line. -/
def failure? (s : Session) : Effect → Option Cause
  | write channel _ =>
    (s.devices.refusal? channel).map fun r => .file channel.name (.other r.message)
  | _ => none

/-- What performing the effect comes to. -/
def outcome (s : Session) (e : Effect) : EStateM.Result Failure Session Value :=
  match e.failure? s with
  | none => .ok (e.value s.heap) (e.after s)
  | some cause => .error (.ofCause cause) (e.after s)

@[simp] theorem heap_after (s : Session) (e : Effect) : (e.after s).heap = e.heap s.heap := by
  cases e with
  | write channel line =>
    obtain ⟨_, _, h⟩ := s.hand_eq channel line
    rw [after, h]
    rfl
  | _ => rfl

@[simp] theorem globals_after (s : Session) (e : Effect) : (e.after s).globals = s.globals := by
  cases e with
  | write channel line =>
    obtain ⟨_, _, h⟩ := s.hand_eq channel line
    rw [after, h]
  | _ => rfl

@[simp] theorem fresh_after (s : Session) (e : Effect) : (e.after s).fresh = s.fresh := by
  cases e with
  | write channel line =>
    obtain ⟨_, _, h⟩ := s.hand_eq channel line
    rw [after, h]
  | _ => rfl

/-- Of the tables that are there, an effect changes only the one it names. -/
theorem get_heap {h : Heap} {e : Effect} {id : TableId} (hid : id < h.size)
    (hne : ∀ t v, e ≠ .change id t v) : (e.heap h).get id = h.get id := by
  cases e with
  | make t => exact (Heap.Grows.push h t).get hid
  | change changed t v =>
    have hchanged : changed ≠ id := by
      rintro rfl
      exact hne t v rfl
    simp only [heap, Heap.get_put, hchanged, false_and, if_false]
  | build j => exact (j.build_grows h).get hid
  | _ => rfl

namespace Like

variable {e e' : Effect} {h h' : Heap}

theorem value (he : e.Like k e') (hh : h.Like k h') : (e.value h).Like k (e'.value h') := by
  cases he with
  | give hv => exact hv
  | make ht => exact hh.value_size
  | change hid ht hv => exact hv
  | write channel line => exact .nil
  | build j => exact (j.build_like hh).1

theorem heap (he : e.Like k e') (hh : h.Like k h') : (e.heap h).Like k (e'.heap h') := by
  cases he with
  | give hv => exact hh
  | make ht => exact hh.push ht
  | change hid ht hv => exact hh.put ht _
  | write channel line => exact hh
  | build j => exact (j.build_like hh).2

end Like

end Effect

theorem Eval.perform_eq (e : Effect) (s : Session) : perform e s = e.outcome s := by
  cases e with
  | write channel line =>
    unfold Effect.outcome Effect.failure? perform
    simp only [bind, EStateM.bind, get, getThe, MonadStateOf.get, EStateM.get]
    cases s.devices.refusal? channel <;> rfl
  | _ => rfl

end Lisplet
