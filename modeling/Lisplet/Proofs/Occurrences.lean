import Lisplet.Text.Search
import Mathlib

/-!
Occurrences of one text in another. A search finds the first of them. Cutting a text at a separator
goes from left to right: each cut is made at the first occurrence that starts behind the last one
cut out, so what is cut out does not overlap, and no piece in between holds the separator.
-/

namespace Lisplet.Text

section Occurrences

variable {α : Type} {needle cs : List α} {i : Nat}

/-- The needle stands in the text at a place. -/
def OccursAt (needle cs : List α) (i : Nat) : Prop := needle <+: cs.drop i

/-- Places in the second of two texts are counted on from the first. -/
theorem occursAt_append (before : List α) :
    OccursAt needle (before ++ cs) (before.length + i) ↔ OccursAt needle cs i := by
  rw [OccursAt, OccursAt, List.drop_append, List.drop_eq_nil_of_le (Nat.le_add_right _ _),
    Nat.add_sub_cancel_left, List.nil_append]

theorem occursAt_iff_cut : OccursAt needle cs i ↔ cut i (i + needle.length) cs = needle := by
  rw [OccursAt, List.prefix_iff_eq_take, cut, List.drop_take, Nat.add_sub_cancel_left, eq_comm]

/-- A needle that is not empty starts before the end. -/
theorem OccursAt.add_length_le (h : OccursAt needle cs i) (hne : needle ≠ []) :
    i + needle.length ≤ cs.length := by
  have hle := h.length_le
  have hpos := List.length_pos_iff.2 hne
  rw [List.length_drop] at hle
  omega

theorem infix_iff_occursAt : needle <:+: cs ↔ ∃ i, OccursAt needle cs i := by
  constructor
  · rintro ⟨before, after, rfl⟩
    refine ⟨before.length, ?_⟩
    rw [List.append_assoc, ← Nat.add_zero before.length, occursAt_append]
    exact List.prefix_append needle after
  · rintro ⟨i, h⟩
    exact h.isInfix.trans (List.drop_suffix i cs).isInfix

/-! The first occurrence. -/

/-- The first occurrence lies within the text, also that of the empty needle. -/
theorem add_length_le_of_isLeast (h : IsLeast {j | OccursAt needle cs j} i) :
    i + needle.length ≤ cs.length := by
  rcases eq_or_ne needle [] with rfl | hne
  · have hzero : i ≤ 0 := h.2 List.nil_prefix
    simp only [List.length_nil]
    omega
  · exact h.1.add_length_le hne

variable [DecidableEq α]

theorem indexOf?_eq_none (h : indexOf? needle cs = none) (i : Nat) : ¬OccursAt needle cs i := by
  induction cs generalizing i with
  | nil =>
    intro hi
    rw [OccursAt, List.drop_nil, List.prefix_nil] at hi
    simp [indexOf?, hi] at h
  | cons c cs ih =>
    simp only [indexOf?, List.isPrefixOf_iff_prefix] at h
    split at h
    · cases h
    · rename_i hzero
      cases i with
      | zero => exact hzero
      | succ i => exact ih (Option.map_eq_none_iff.1 h) i

theorem isLeast_of_indexOf? (h : indexOf? needle cs = some i) :
    IsLeast {j | OccursAt needle cs j} i := by
  induction cs generalizing i with
  | nil =>
    simp only [indexOf?, Option.ite_none_right_eq_some, List.isEmpty_iff, Option.some_inj] at h
    obtain ⟨rfl, rfl⟩ := h
    exact ⟨List.nil_prefix, fun j _ => Nat.zero_le j⟩
  | cons c cs ih =>
    simp only [indexOf?, List.isPrefixOf_iff_prefix] at h
    split at h
    · rename_i hzero
      cases h
      exact ⟨hzero, fun j _ => Nat.zero_le j⟩
    · rename_i hzero
      obtain ⟨k, hk, rfl⟩ := Option.map_eq_some_iff.1 h
      obtain ⟨hoccurs, hleast⟩ := ih hk
      refine ⟨hoccurs, fun j hj => ?_⟩
      cases j with
      | zero => exact absurd hj hzero
      | succ j => exact Nat.succ_le_succ (hleast hj)

theorem indexOf?_eq_some_of_isLeast (h : IsLeast {j | OccursAt needle cs j} i) :
    indexOf? needle cs = some i := by
  cases hfound : indexOf? needle cs with
  | none => exact absurd h.1 (indexOf?_eq_none hfound i)
  | some j => rw [(isLeast_of_indexOf? hfound).unique h]

theorem indexOf?_eq_some_zero_iff : indexOf? needle cs = some 0 ↔ needle <+: cs := by
  constructor
  · exact fun h => (isLeast_of_indexOf? h).1
  · intro h
    cases cs with
    | nil => simp [indexOf?, List.prefix_nil.1 h]
    | cons c cs => rw [indexOf?, if_pos (List.isPrefixOf_iff_prefix.2 h)]

end Occurrences

variable {needle sep cs : List Char} {i : Nat}

/-! Cutting. -/

/-- The occurrences that are met going through a text from a place on, where each search starts
behind the occurrence before. -/
inductive Leftmost (sep cs : List Char) : (start : Nat) → List Nat → Prop
  | nothing {start : Nat} (h : ∀ i, start ≤ i → ¬OccursAt sep cs i) : Leftmost sep cs start []
  | next {start i : Nat} {places : List Nat} (h : IsLeast {j | start ≤ j ∧ OccursAt sep cs j} i)
      (hrest : Leftmost sep cs (i + sep.length) places) : Leftmost sep cs start (i :: places)

theorem Leftmost.unique {start : Nat} {places others : List Nat}
    (h : Leftmost sep cs start places) (h' : Leftmost sep cs start others) : places = others := by
  induction h generalizing others with
  | nothing hnone =>
    cases h' with
    | nothing => rfl
    | next hfirst => exact absurd hfirst.1.2 (hnone _ hfirst.1.1)
  | next hfirst _ ih =>
    cases h' with
    | nothing hnone => exact absurd hfirst.1.2 (hnone _ hfirst.1.1)
    | next hfirst' hrest' =>
      obtain rfl := hfirst.unique hfirst'
      rw [ih hrest']

theorem splitFrom_skip (sep : List Char) (skip : Nat) (cs : List Char) :
    splitFrom sep skip cs = splitFrom sep 0 (cs.drop skip) := by
  induction cs generalizing skip with
  | nil => simp [splitFrom]
  | cons c cs ih =>
    cases skip with
    | zero => rfl
    | succ skip => exact ih skip

/-- The first piece ends where the separator first occurs, and the others are those of what follows
it. -/
theorem splitFrom_eq (hsep : sep ≠ []) (cs : List Char) :
    splitFrom sep 0 cs = (indexOf? sep cs).elim [cs] fun i =>
      cs.take i :: splitFrom sep 0 (cs.drop (i + sep.length)) := by
  induction cs with
  | nil => simp [splitFrom, indexOf?, hsep]
  | cons c cs ih =>
    simp only [splitFrom, indexOf?]
    split
    · have hlength : sep.length = sep.length - 1 + 1 := by
        have hpos := List.length_pos_iff.2 hsep
        omega
      rw [splitFrom_skip, Option.elim_some, Nat.zero_add, hlength]
      rfl
    · rw [ih]
      cases indexOf? sep cs with
      | none => rfl
      | some i => simp [Nat.add_right_comm i 1]

/-- A text without the separator is one piece; any other has the piece up to the first separator and
the pieces of the rest. -/
theorem splitFrom_induction (hsep : sep ≠ [])
    {motive : List Char → List (List Char) → Prop}
    (last : ∀ cs, (∀ i, ¬OccursAt sep cs i) → motive cs [cs])
    (cut : ∀ piece rest, IsLeast {i | OccursAt sep (piece ++ (sep ++ rest)) i} piece.length →
      motive rest (splitFrom sep 0 rest) →
      motive (piece ++ (sep ++ rest)) (piece :: splitFrom sep 0 rest)) (cs : List Char) :
    motive cs (splitFrom sep 0 cs) := by
  induction hn : cs.length using Nat.strong_induction_on generalizing cs with
  | h n ih =>
    rw [splitFrom_eq hsep]
    cases hi : indexOf? sep cs with
    | none => exact last cs (indexOf?_eq_none hi)
    | some i =>
      have hleast := isLeast_of_indexOf? hi
      have hle := hleast.1.add_length_le hsep
      have hpos := List.length_pos_iff.2 hsep
      have htake : (cs.take i).length = i := List.length_take_of_le (by omega)
      have hsplit : cs = cs.take i ++ (sep ++ cs.drop (i + sep.length)) := by
        conv_lhs => rw [← List.take_append_drop i cs]
        rw [← List.drop_drop, List.append_cancel_left_eq]
        exact List.prefix_append_drop hleast.1
      have hrest := ih (cs.drop (i + sep.length)).length (by rw [List.length_drop]; omega) _ rfl
      have hcut := cut (cs.take i) (cs.drop (i + sep.length)) (by rwa [← hsplit, htake]) hrest
      rwa [← hsplit] at hcut

theorem split_of_ne_nil (hsep : sep ≠ []) (cs : List Char) : split sep cs = splitFrom sep 0 cs := by
  rw [split, if_neg (by simpa using hsep)]

theorem splitFrom_ne_nil (hsep : sep ≠ []) (cs : List Char) : splitFrom sep 0 cs ≠ [] := by
  rw [splitFrom_eq hsep]
  cases indexOf? sep cs <;> simp

/-- The pieces with the separator between them are the text again. -/
theorem intercalate_split (sep cs : List Char) : sep.intercalate (split sep cs) = cs := by
  rcases eq_or_ne sep [] with rfl | hsep
  · rw [split, List.isEmpty_nil, if_pos rfl]
    induction cs with
    | nil => rfl
    | cons c cs ih =>
      cases cs with
      | nil => rfl
      | cons d cs =>
        simp only [List.map_cons, List.intercalate_cons_cons] at ih ⊢
        rw [ih]
        rfl
  · rw [split_of_ne_nil hsep]
    refine splitFrom_induction hsep (motive := fun cs pieces => sep.intercalate pieces = cs)
      ?_ ?_ cs
    · exact fun cs _ => List.intercalate_singleton
    · intro piece rest _ ih
      rw [List.intercalate_cons_of_ne_nil (splitFrom_ne_nil hsep rest), ih, List.append_assoc]

theorem not_infix_of_mem_splitFrom (hsep : sep ≠ []) (cs : List Char) :
    ∀ piece ∈ splitFrom sep 0 cs, ¬sep <:+: piece := by
  refine splitFrom_induction hsep
    (motive := fun _ pieces => ∀ piece ∈ pieces, ¬sep <:+: piece) ?_ ?_ cs
  · intro cs hnone piece hpiece
    obtain rfl := List.mem_singleton.1 hpiece
    rw [infix_iff_occursAt]
    rintro ⟨i, hi⟩
    exact hnone i hi
  · intro piece rest hleast ih other hother
    rcases List.mem_cons.1 hother with rfl | hother
    · -- an occurrence within the piece would come before the first one
      rw [infix_iff_occursAt]
      rintro ⟨i, hi⟩
      have hle := hi.add_length_le hsep
      have hpos := List.length_pos_iff.2 hsep
      have hwhole : OccursAt sep (other ++ (sep ++ rest)) i := by
        rw [OccursAt, List.drop_append_of_le_length (by omega)]
        exact hi.trans (List.prefix_append _ _)
      have hfirst := hleast.2 hwhole
      omega
    · exact ih other hother

/-- There is a cut at each of the occurrences met from left to right. -/
theorem exists_leftmost (hsep : sep ≠ []) (before cs : List Char) :
    ∃ places, Leftmost sep (before ++ cs) before.length places ∧
      (splitFrom sep 0 cs).length = places.length + 1 := by
  refine splitFrom_induction hsep (motive := fun cs pieces => ∀ before : List Char,
    ∃ places, Leftmost sep (before ++ cs) before.length places ∧
      pieces.length = places.length + 1) ?_ ?_ cs before
  · intro cs hnone before
    refine ⟨[], .nothing fun i hi hoccurs => ?_, rfl⟩
    obtain ⟨k, rfl⟩ := Nat.exists_eq_add_of_le hi
    exact hnone k ((occursAt_append before).1 hoccurs)
  · intro piece rest hleast ih before
    obtain ⟨places, hplaces, hlength⟩ := ih (before ++ (piece ++ sep))
    refine ⟨(before.length + piece.length) :: places, .next ⟨⟨?_, ?_⟩, ?_⟩ ?_, ?_⟩
    · exact Nat.le_add_right _ _
    · exact (occursAt_append before).2 hleast.1
    · rintro j ⟨hj, hoccurs⟩
      obtain ⟨k, rfl⟩ := Nat.exists_eq_add_of_le hj
      exact Nat.add_le_add_left (hleast.2 ((occursAt_append before).1 hoccurs)) _
    · simpa [Nat.add_assoc] using hplaces
    · rw [List.length_cons, List.length_cons, hlength]

end Lisplet.Text
