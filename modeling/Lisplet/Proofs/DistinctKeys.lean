import Mathlib
import Lisplet.Proofs.Gate

/-!
Every table is a map. However tables come about, by being written out, by the primitive, by methods
or from a document, no two keys of a table are ever equal, in any session that programs lead to.
-/

namespace Lisplet

/-- Keys stay distinct, whatever the effects. -/
def Accord.distinct (access : Access) : Accord access .same where
  holds s _ := s.heap.Distinct
  enter {s _ f _} h _ := by cases f <;> exact h
  leave {s _ f _} h _ := by cases f <;> exact h
  fresh h := h
  define h _ _ := h
  act h _ _ he _ := by
    rw [Effect.heap_after]
    exact he.orderly.distinct h

namespace Config

theorem evaluate_distinct (config : Config) (scope : Bindings) (form : Form) {s : Session}
    (h : s.heap.Distinct) : (Outcome.session (config.evaluate scope form s)).heap.Distinct :=
  (evaluators (Accord.distinct config.access) scope scope form form scope.like_same form.like_same
    s s ⟨s.like_same, h⟩).sessions.holds

theorem runSource_distinct (config : Config) (file source : String) (s : Session)
    (h : s.heap.Distinct) : (Outcome.session (config.runSource file source s)).heap.Distinct :=
  (runSource_sessions (Accord.distinct config.access) Form.like_same file source
    ⟨s.like_same, h⟩).holds

/-- Every evaluation keeps the keys of all tables distinct, so after any programs every table obeys
the laws of a map that keeps its keys in order. A table of entries, the table that the primitive
makes of keys and values by turns, and a table that is written out are what setting the entries one
after another gives; a last key without a value is set to nil. -/
theorem tables_are_maps (config : Config) :
    (∀ scope form s, s.heap.Distinct →
      (Outcome.session (config.evaluate scope form s)).heap.Distinct) ∧
    (∀ s, config.start = .ok s → ∀ sources id,
      ((config.runAll sources s).heap.get id).Distinct ∧
      ((config.runAll sources s).heap.get id).Laws) ∧
    (∀ entries, Table.OfSettings entries (.ofEntries entries)) ∧
    (∀ entries, Table.OfSettings entries (.ofFlat (entries.flatMap fun e => [e.1, e.2]))) ∧
    (∀ entries key, Table.OfSettings (entries ++ [(key, .nil)])
      (.ofFlat ((entries.flatMap fun e => [e.1, e.2]) ++ [key]))) ∧
    (∀ ev scope entries, Eval.step config.access ev scope (.table entries) =
      Eval.evalAll ev scope (entries.map Prod.snd) >>= fun values =>
        Eval.makeTable (.ofEntries ((entries.map fun e => Value.ofAtom e.1).zip values))) := by
  refine ⟨fun scope form s => config.evaluate_distinct scope form, fun s hs sources id => ?_,
    Table.ofSettings_ofEntries, fun entries => ?_, fun entries key => ?_,
    Eval.step_table config.access⟩
  · have hstart : s.heap.Distinct :=
      start_induct Heap.distinct_empty config.runSource_distinct hs
    have hrun := runAll_induct config.runSource_distinct sources hstart
    exact ⟨hrun id, (hrun id).laws⟩
  · have hflat := Table.ofSettings_ofEntries entries
    have hpairs := Table.pairUp_flatMap entries []
    rw [Table.pairUp, List.append_nil, List.append_nil] at hpairs
    rwa [Table.ofFlat, hpairs]
  · rw [Table.ofFlat, Table.pairUp_flatMap, Table.pairUp]
    exact Table.ofSettings_ofEntries _

/-- A key that is written out twice, and one that is set. -/
theorem tables_are_maps_twice :
    let config : Config := ⟨100, false, .all⟩
    ∃ s, config.start = .ok s ∧
      let t := (config.runAll [("a", "(.set \x7ba \"x\" a \"y\"\x7d \"b\" \"z\")")] s).heap.get 0
      t = [(.text "a", .text "y"), (.text "b", .text "z")] ∧ t.Distinct ∧ t.Laws := by
  intro config
  refine ⟨_, rfl, ?_, (tables_are_maps config).2.1 _ rfl _ 0⟩
  cbv

end Config

end Lisplet
