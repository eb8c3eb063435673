import Mathlib
import Lisplet.Proofs.Unmentioned

/-!
Mutation stays local. A run gets hold of tables only through the values that its scope and the
globals bind, so a table out of reach is neither changed nor brought into reach. This is said by
comparing the run with itself: what is in reach, and every table still to be made, is all that the
run deals with.
-/

namespace Lisplet

/-- What can be got hold of in a session. The locations that forms may differ in and the functions
that look at a run are left open. -/
def Likeness.around (scope : Bindings) (s : Session) (place : Location → Location → Prop)
    (probe : Probe → Prop) (place_eq : ∀ l l', probe .trace → place l l' → l = l') :
    Likeness :=
  { Likeness.same with
    place := place
    table := fun id => InReach .univ scope s (.table id) ∨ s.heap.size ≤ id
    probe := probe
    place_eq := fun hp h => place_eq _ _ hp h
    name_all := fun _ _ => trivial }

section Around

variable {scope : Bindings} {s : Session} {place : Location → Location → Prop}
  {probe : Probe → Prop} {place_eq : ∀ l l', probe .trace → place l l' → l = l'}
  (hplace : ∀ l, place l l)
  (hprobe : ∀ p, InReach .univ scope s (.function (.probe p)) → probe p)

include hplace

theorem Form.like_around (f : Form) : f.Like (.around scope s place probe place_eq) f :=
  f.like_self hplace fun _ _ => trivial

include hprobe

theorem Function.like_around {f : Function} (hf : InReach .univ scope s (.function f)) :
    f.Like (.around scope s place probe place_eq) f := by
  refine f.like_self hplace ?_ (fun _ _ _ => rfl) fun _ _ _ _ => ⟨rfl, fun _ _ _ _ _ _ => trivial⟩
  rintro p rfl
  exact hprobe p hf

theorem Value.like_around {v : Value} (hv : InReach .univ scope s v) :
    v.Like (.around scope s place probe place_eq) v :=
  v.like_of (P := InReach .univ scope s) (fun hl w hw => hl.trans (.item hw (.self w))) Or.inl
    (Function.like_around hplace hprobe) hv

theorem Bindings.like_around : scope.Like (.around scope s place probe place_eq) scope :=
  Bindings.like_self fun x v _ hv =>
    Value.like_around hplace hprobe ⟨x, trivial, v, .inl hv, .self v⟩

theorem Session.like_around : s.Like (.around scope s place probe place_eq) s where
  globals := Bindings.like_self fun x v _ hv =>
    Value.like_around hplace hprobe ⟨x, trivial, v, .inr hv, .self v⟩
  heap := Heap.like_of (P := InReach .univ scope s) (Value.like_around hplace hprobe)
    (fun hid _ he => hid.entry he) id .inr
  fresh _ := rfl
  depth := rfl
  calls := List.forall₂_same.2 fun c _ => c.like_self hplace
  devices := rfl

end Around

/-- What is like itself in a session leads to nothing else. -/
theorem Value.Like.of_reaches {k : Likeness} {h : Heap} (hh : h.Like k h) {v w : Value}
    (hv : v.Like k v) (hw : v.Reaches h w) : w.Like k w := by
  induction hw with
  | self => exact hv
  | item hmem _ ih =>
    cases hv with
    | list hitems => exact ih (List.forall₂_same.1 hitems _ hmem)
  | key he _ ih =>
    cases hv with
    | table hid => exact ih (List.forall₂_same.1 (hh.get hid) _ he).1
  | value he _ ih =>
    cases hv with
    | table hid => exact ih (List.forall₂_same.1 (hh.get hid) _ he).2

namespace Config

/-- Whether an evaluation succeeds or fails, it leaves alone every table that neither the scope nor
the globals led to; and what now leads from the value, from a global or from a table that has
changed to a table that was there before, led to it before. -/
theorem mutation_local (config : Config) (scope : Bindings) (form : Form) (s : Session) :
    let r := config.evaluate scope form s
    let s' := Outcome.session r
    ∀ id < s.heap.size,
      (¬InReach .univ scope s (.table id) → s'.heap.get id = s.heap.get id) ∧
      ((∃ v, Outcome.result r = .ok v ∧ v.Reaches s'.heap (.table id)) ∨
        (∃ x v, s'.globals.get? x = some v ∧ v.Reaches s'.heap (.table id)) ∨
        (∃ other, s'.heap.get other ≠ s.heap.get other ∧
          (Value.table other).Reaches s'.heap (.table id)) →
        InReach .univ scope s (.table id)) := by
  intro r s' id hid
  -- the run beside itself: it keeps to what is in reach and to tables still to be made
  let k : Likeness := .around scope s Eq (fun _ => True) fun _ _ _ h => h
  have hrefl (l : Location) : l = l := rfl
  have hprobe (p : Probe) (_ : InReach .univ scope s (.function (.probe p))) : True := trivial
  have hrun : (Accord.sparing config.access k s s).Outcomes (Value.Like k) r r :=
    config.evaluate_like (Bindings.like_around hrefl hprobe) (form.like_around hrefl)
      (Session.like_around hrefl hprobe)
  obtain ⟨hlike, hspare⟩ := hrun.sessions
  have hkept {other : TableId} (hother : ¬k.table other) :
      s'.heap.get other = s.heap.get other := hspare.left.heap hother
  have hreach {v : Value} (hv : v.Like k v) (hid' : v.Reaches s'.heap (.table id)) :
      InReach .univ scope s (.table id) := by
    cases hv.of_reaches hlike.heap hid' with
    | table h => exact h.resolve_right (by omega)
  refine ⟨fun hnot => hkept ?_, ?_⟩
  · rintro (h | h)
    · exact hnot h
    · omega
  · rintro (⟨v, hv, hid'⟩ | ⟨x, v, hv, hid'⟩ | ⟨other, hother, hid'⟩)
    · refine hreach ?_ hid'
      generalize r = r' at hrun hv
      cases hrun with
      | ok hvalue _ =>
        cases hv
        exact hvalue
      | error _ _ => cases hv
    · exact hreach (hlike.globals.value trivial hv) hid'
    · exact hreach (.table (not_not.1 (mt hkept hother))) hid'

/-- An entry is set in a table that a global binds; the other table is out of reach. -/
theorem mutation_local_set :
    let s : Session := { Session.initial with
      globals := ⟨[("h", .table 0)]⟩, heap := ⟨#[[], [(.text "a", .table 1)]]⟩ }
    let form : Form :=
      .call [.symbol ".set", .symbol "h", .atom (.text "k"), .symbol "h"] ⟨"a", 1, 1⟩
    let s' := Outcome.session (Config.default.evaluate .empty form s)
    s'.heap.get 0 = [(.text "k", .table 0)] ∧ InReach .univ .empty s (.table 0) ∧
      ¬InReach .univ .empty s (.table 1) ∧ s'.heap.get 1 = [(.text "a", .table 1)] := by
  intro s form s'
  have hset : s'.heap.get 0 = [(.text "k", .table 0)] := by cbv
  have hnot : ¬InReach .univ .empty s (.table 1) := by
    rintro ⟨x, -, v, hv | hv, hreach⟩
    · cases hv
    · obtain ⟨-, rfl⟩ := Prod.mk.inj (List.mem_singleton.1 (Bindings.mem_of_find hv))
      cases hreach with
      | key he _ => cases he
      | value he _ => cases he
  have hlocal := mutation_local Config.default .empty form s
  refine ⟨hset, (hlocal 0 (by decide)).2 (.inr (.inr ⟨0, ?_, .self _⟩)), hnot,
    (hlocal 1 (by decide)).1 hnot⟩
  change s'.heap.get 0 ≠ []
  simp [hset]

end Config

end Lisplet
