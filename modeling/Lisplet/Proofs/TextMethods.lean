import Lisplet.Proofs.Bytes
import Lisplet.Proofs.Slices
import Lisplet.Proofs.Variadic
import Mathlib

/-!
Methods that search in texts. Splitting a text and joining the pieces undo each other at every
separator. The place that a search finds is the place that slicing counts: in a text of less than
`2 ^ 53` characters it is the first one at which a slice of the needle's length is the needle.
-/

namespace Lisplet

/-- The number of a natural is placed there, or at the end. -/
theorem Number.place_ofNat {n : Nat} (hn : n < 2 ^ 53) (length : Nat) :
    Parts.place length (parts (Float.ofNat n)) = min n length := by
  obtain ⟨m, q, hfinite, hvalue⟩ := isWhole_ofNat hn
  rw [hfinite.parts_eq]
  simp only [Parts.place, hvalue, Nat.floor_natCast, Bool.false_eq_true, false_and, if_false]

theorem Number.ofNat_ne_neg_one (n : Nat) : Float.ofNat n ≠ -1 := by
  intro h
  have hbits := toBits_ofNat_lt n
  rw [h] at hbits
  exact absurd hbits (by decide)

/-! What a search finds, as a number. -/

theorem Number.elim_eq_neg_one_iff {i? : Option Nat} :
    i?.elim (-1) Float.ofNat = -1 ↔ i? = none := by
  cases i? with
  | none => simp
  | some i => simp [ofNat_ne_neg_one i]

theorem Number.elim_eq_zero_iff {i? : Option Nat} :
    i?.elim (-1) Float.ofNat = 0 ↔ i? = some 0 := by
  cases i? with
  | none => exact iff_of_false (ofNat_ne_neg_one 0).symm (by simp)
  | some i =>
    rw [Option.elim_some, Option.some_inj]
    constructor
    · intro h
      have hbeq := ofNat_beq_zero i
      rw [h] at hbeq
      exact of_decide_eq_true (hbeq.symm.trans (by decide))
    · rintro rfl
      rfl

/-- Places behind the end cut off nothing more. -/
theorem Text.cut_min {α : Type} (xs : List α) {start stop : Nat} (h : start ≤ stop) :
    cut (min start xs.length) (max (min start xs.length) (min stop xs.length)) xs =
      cut start stop xs := by
  have hmax : max (min start xs.length) (min stop xs.length) = min stop xs.length := by omega
  have htake : xs.take (min stop xs.length) = xs.take stop := by
    rw [← List.take_take, List.take_length]
  rw [hmax, cut, cut, htake]
  rcases Nat.le_total start xs.length with hle | hle
  · rw [Nat.min_eq_left hle]
  · have hlength : (xs.take stop).length ≤ xs.length := List.length_take_le' _ _
    rw [Nat.min_eq_right hle, List.drop_eq_nil_of_le hlength,
      List.drop_eq_nil_of_le (hlength.trans hle)]

theorem Text.intercalate_ofList_split (text sep : String) :
    sep.intercalate ((split sep.toList text.toList).map String.ofList) = text := by
  have hchars : String.toList ∘ String.ofList = id := funext fun _ => String.toList_ofList
  rw [← String.toList_inj, String.toList_intercalate, List.map_map, hchars, List.map_id,
    intercalate_split]

namespace Host

theorem split_eq (heap : Heap) (s sep : String) :
    methodPlan heap (.text s) "split" [.text sep] = .ok (.give
      (.list (((Text.split sep.toList s.toList).map String.ofList).map .text))) := by
  rw [List.map_map]
  rfl

theorem join_eq (heap : Heap) (pieces : List String) (sep : String) :
    methodPlan heap (.list (pieces.map .text)) "join" [.text sep] =
      .ok (.give (.text (sep.intercalate pieces))) := by
  have htexts : (pieces.map Value.text).map (joinText heap) = pieces := by
    rw [List.map_map]
    exact List.map_id pieces
  change Except.ok (Effect.give (.text (sep.intercalate _))) = _
  rw [htexts]

theorem slice_eq (heap : Heap) {s : String} (hlength : s.toList.length < 2 ^ 53)
    (args : List Number) :
    let start := args[0]?.elim 0 (·.parts.place s.toList.length)
    let stop := args[1]?.elim s.toList.length (·.parts.place s.toList.length)
    methodPlan heap (.text s) "slice" (args.map .number) =
      .ok (.give (.text (String.ofList (Text.cut start (max start stop) s.toList)))) := by
  intro start stop
  change (Effect.give <$> (HostCall.slice ⟨".slice", args.map .number⟩ s.toList >>= _)) = _
  rw [HostCall.slice, HostCall.bounds_eq hlength]
  rfl

theorem slice_ofNat (heap : Heap) {s : String} (hlength : s.toList.length < 2 ^ 53) {start n : Nat}
    (hstop : start + n < 2 ^ 53) :
    methodPlan heap (.text s) "slice" [.ofNat start, .number (Float.ofNat start + Float.ofNat n)] =
      .ok (.give (.text (String.ofList (Text.cut start (start + n) s.toList)))) := by
  have hslice := slice_eq heap hlength [Float.ofNat start, Float.ofNat (start + n)]
  simp only [List.getElem?_cons_zero, List.getElem?_cons_succ, Option.elim_some,
    Number.place_ofNat hstop, Number.place_ofNat (Nat.lt_of_le_of_lt (Nat.le_add_right _ n) hstop),
    Text.cut_min s.toList (Nat.le_add_right start n)] at hslice
  rw [Number.ofNat_add_ofNat hstop]
  exact hslice

theorem slice_ofNat_end (heap : Heap) {s : String} (hlength : s.toList.length < 2 ^ 53)
    {start : Nat} (hstart : start ≤ s.toList.length) :
    methodPlan heap (.text s) "slice" [.ofNat start] =
      .ok (.give (.text (String.ofList (s.toList.drop start)))) := by
  have hslice := slice_eq heap hlength [Float.ofNat start]
  simp only [List.getElem?_cons_zero, List.getElem?_cons_succ, List.getElem?_nil, Option.elim_some,
    Option.elim_none, Number.place_ofNat (Nat.lt_of_le_of_lt hstart hlength),
    Nat.min_eq_left hstart, Nat.max_eq_right hstart, Text.cut, List.take_length] at hslice
  exact hslice

theorem indexOf_eq (heap : Heap) (s needle : String) :
    methodPlan heap (.text s) "indexOf" [.text needle] = .ok (.give
      (.number ((Text.indexOf? needle.toList s.toList).elim (-1) Float.ofNat))) := by
  change Except.ok (Effect.give (ofIndex? (Text.position? needle.toList s.toList))) = _
  rw [Text.position?_eq_indexOf?]
  cases Text.indexOf? needle.toList s.toList <;> rfl

end Host

namespace Config

variable {config : Config} {s : Session} {scope : Bindings} {levels frames : Nat}

/-- Where there is room, a form has one value. -/
theorem Evaluates.unique {form : Form} {v w : Value} (hroom : s.depth + levels ≤ config.maxDepth)
    (hv : config.Evaluates s levels scope form v) (hw : config.Evaluates s levels scope form w) :
    v = w := by
  have hv' := (hv s (.refl s) hroom).1
  have hw' := (hw s (.refl s) hroom).1
  rw [hv'] at hw'
  exact Except.ok.inj hw'

theorem evaluates_method (symbol name : String) {operands : List Form} {object v : Value}
    {args : List Value} (l : Location) (hname : Member.ofSymbol? symbol = some (.method name))
    (hoperands : List.Forall₂ (config.Evaluates s levels scope) operands (object :: args))
    (h : ∀ heap, Host.methodPlan heap object name args = .ok (.give v)) :
    config.Evaluates s (levels + 2) scope (.call (.symbol symbol :: operands) l) v :=
  settles_member_call hname
    (settles_operands (hoperands.imp fun _ _ hv => Settles.lift hv (Nat.le_succ levels)))
    fun _ => settles_method h

theorem evaluates_length {p : Form} {text : String} (l : Location)
    (hp : config.Evaluates s levels scope p (.text text)) :
    config.Evaluates s (levels + 2) scope (.call [.symbol ".-length", p] l)
      (.ofNat text.toList.length) :=
  settles_member_call rfl (settles_operands (.cons (Settles.lift hp (Nat.le_succ levels)) .nil))
    fun _ => settles_field fun _ => rfl

variable {p q : Form} {text sep : String}

/-- A text that is split at a separator and joined with it again is the same text. Unless the
separator is empty, no piece holds it, and there is one piece more than there are occurrences met
from left to right; the pieces at the empty separator are the characters. -/
theorem join_split (l : Location) (hp : config.Evaluates s frames scope p (.text text))
    (hq : config.Evaluates s frames scope q (.text sep)) :
    let split := Form.call [.symbol ".split", p, q] l
    ∃ pieces : List String,
      config.Evaluates s (frames + 2) scope split (.list (pieces.map .text)) ∧
      config.Evaluates s (frames + 4) scope (.call [.symbol ".join", split, q] l) (.text text) ∧
      (sep ≠ "" →
        (∀ piece ∈ pieces, ¬sep.toList <:+: piece.toList) ∧
        (∃! places, Text.Leftmost sep.toList text.toList 0 places) ∧
        ∀ places, Text.Leftmost sep.toList text.toList 0 places →
          pieces.length = places.length + 1) ∧
      (sep = "" → pieces = text.toList.map String.singleton) := by
  intro split
  have hsplit := evaluates_method ".split" "split" l rfl (.cons hp (.cons hq .nil))
    fun heap => Host.split_eq heap text sep
  refine ⟨_, hsplit, evaluates_method ".join" "join" l rfl
    (.cons hsplit (.cons (Settles.lift hq (by omega)) .nil)) fun heap => ?_, fun hsep => ?_, ?_⟩
  · rw [Host.join_eq, Text.intercalate_ofList_split]
  · have hne : sep.toList ≠ [] := by simpa using hsep
    obtain ⟨places, hplaces, hlength⟩ := Text.exists_leftmost hne [] text.toList
    rw [Text.split_of_ne_nil hne]
    refine ⟨?_, ⟨places, hplaces, fun others h => h.unique hplaces⟩, fun others h => ?_⟩
    · rw [List.forall_mem_map]
      intro piece hpiece
      rw [String.toList_ofList]
      exact Text.not_infix_of_mem_splitFrom hne text.toList piece hpiece
    · rw [h.unique hplaces, List.length_map, hlength]
  · rintro rfl
    simp [Text.split]

/-- Two characters make up the separator and overlap in the text; the cut is at the first pair. -/
theorem join_split_overlap :
    let l : Location := ⟨"a", ⟨1, 1⟩⟩
    let q : Form := .atom (.text "aa")
    let split := Form.call [.symbol ".split", .atom (.text "éaaab"), q] l
    let value := Config.default.Evaluates Prelude.session 5 .empty
    ∃ pieces : List String, value split (.list (pieces.map .text)) ∧
      value (.call [.symbol ".join", split, q] l) (.text "éaaab") ∧
      ∀ piece ∈ pieces, ¬"aa".toList <:+: piece.toList := by
  intro l q split value
  obtain ⟨pieces, hsplit, hjoin, hpieces, -⟩ := @join_split Config.default Prelude.session .empty 1
    (.atom (.text "éaaab")) q "éaaab" "aa" l (settles_atom _) (settles_atom _)
  exact ⟨pieces, Settles.lift hsplit (by decide), hjoin, (hpieces (by decide)).1⟩

/-! Places. -/

variable {needle : String}

section Slicing

variable (std : config.Standard ["-", "*", "+", "apply"] scope s) (l : Location)
  (hp : config.Evaluates s frames scope p (.text text))
  (hq : config.Evaluates s frames scope q (.text needle)) (hlength : text.toList.length < 2 ^ 53)

include std hp hq hlength

/-- The slice of the needle's length from a place on. -/
theorem evaluates_slice_from {i : Nat} (hi : i + needle.toList.length < 2 ^ 53) :
    config.Evaluates s (frames + 6) scope (.call [.symbol ".slice", p,
      .atom (.number (Float.ofNat i)), .call [.symbol "+", .atom (.number (Float.ofNat i)),
        .call [.symbol ".-length", q] l] l] l)
      (.text (String.ofList (Text.cut i (i + needle.toList.length) text.toList))) := by
  have hstop : config.Evaluates s (frames + 4) scope (.call [.symbol "+",
      .atom (.number (Float.ofNat i)), .call [.symbol ".-length", q] l] l)
      (.number (Float.ofNat i + Float.ofNat needle.toList.length)) :=
    std.settles_op .add [.ofNat i, .ofNat needle.toList.length] (by decide)
      (settles_operands (.cons (settles_atom _)
        (.cons (Settles.lift (evaluates_length l hq) (by omega)) .nil))) fun _ => rfl
  exact evaluates_method ".slice" "slice" l rfl
    (.cons (Settles.lift hp (by omega)) (.cons (settles_atom _) (.cons hstop .nil)))
    fun heap => Host.slice_ofNat heap hlength hi

/-- The slice of the needle's length at the end. -/
theorem evaluates_slice_last (hle : needle.toList.length ≤ text.toList.length) :
    config.Evaluates s (frames + 6) scope (.call [.symbol ".slice", p, .call [.symbol "-",
      .call [.symbol ".-length", p] l, .call [.symbol ".-length", q] l] l] l)
      (.text (String.ofList
        (text.toList.drop (text.toList.length - needle.toList.length)))) := by
  have hstart : config.Evaluates s (frames + 4) scope (.call [.symbol "-",
      .call [.symbol ".-length", p] l, .call [.symbol ".-length", q] l] l)
      (.ofNat (text.toList.length - needle.toList.length)) := by
    rw [Value.ofNat, ← Number.ofNat_add_neg_one_mul hle hlength]
    exact std.settles_run "-" [.ofNat text.toList.length, .ofNat needle.toList.length] (by decide)
      (by decide) (settles_operands (.cons (Settles.lift (evaluates_length l hp) (by omega))
        (.cons (Settles.lift (evaluates_length l hq) (by omega)) .nil)))
      (settles_minus_two std _ _)
  exact evaluates_method ".slice" "slice" l rfl
    (.cons (Settles.lift hp (by omega)) (.cons hstart .nil))
    fun heap => Host.slice_ofNat_end heap hlength (Nat.sub_le _ _)

/-- The first place at which the needle stands is the first from which a slice is the needle. -/
theorem isLeast_slice (hroom : s.depth + (frames + 6) ≤ config.maxDepth) {i : Nat}
    (hleast : IsLeast {j | Text.OccursAt needle.toList text.toList j} i) :
    IsLeast {j | config.Evaluates s (frames + 6) scope (.call [.symbol ".slice", p,
      .atom (.number (Float.ofNat j)), .call [.symbol "+", .atom (.number (Float.ofNat j)),
        .call [.symbol ".-length", q] l] l] l) (.text needle)} i := by
  have hend := Text.add_length_le_of_isLeast hleast
  have hslice {j : Nat} (hj : j ≤ i) :=
    evaluates_slice_from std l hp hq hlength (show j + needle.toList.length < 2 ^ 53 by omega)
  refine ⟨?_, fun j hj => ?_⟩
  · have hcut := hslice (Nat.le_refl i)
    rwa [Text.occursAt_iff_cut.1 hleast.1, String.ofList_toList] at hcut
  · -- an earlier slice that is the needle would be an earlier occurrence
    by_contra hlt
    have hcut := Value.text.inj ((hslice (by omega)).unique hroom hj)
    have hoccurs : Text.OccursAt needle.toList text.toList j := by
      rw [Text.occursAt_iff_cut, ← String.toList_ofList (l := Text.cut _ _ _), hcut]
    exact hlt (hleast.2 hoccurs)

end Slicing

/-- Searching and slicing agree on places. A search fails exactly if the needle is not included, and
finds place zero exactly if the text starts with the needle. What it finds is the number of the
first place at which the needle stands. In a text of less than `2 ^ 53` characters, where all places
are numbers, that is the first place from which a slice of the needle's length is the needle, and
the text ends with the needle exactly if it is at least as long and its last slice of that length is
the needle. -/
theorem text_places_agree (std : config.Standard ["-", "*", "+", "apply"] scope s) (l : Location)
    (hp : config.Evaluates s frames scope p (.text text))
    (hq : config.Evaluates s frames scope q (.text needle))
    (hroom : s.depth + (frames + 6) ≤ config.maxDepth) :
    let value := config.Evaluates s (frames + 6) scope
    let call name operands := Form.call (.symbol name :: operands) l
    let index i := Form.atom (.number (Float.ofNat i))
    let length r := call ".-length" [r]
    ∃ (place : Number) (includes starts ends : Bool),
      value (call ".indexOf" [p, q]) (.number place) ∧
      value (call ".includes" [p, q]) (.bool includes) ∧
      value (call ".startsWith" [p, q]) (.bool starts) ∧
      value (call ".endsWith" [p, q]) (.bool ends) ∧
      (place = -1 ↔ includes = false) ∧
      (place = 0 ↔ starts = true) ∧
      (includes = true → ∃ i, place = Float.ofNat i ∧
        IsLeast {j | Text.cut j (j + needle.length) text.toList = needle.toList} i ∧
        (text.length < 2 ^ 53 → IsLeast {j | value
          (call ".slice" [p, index j, call "+" [index j, length q]]) (.text needle)} i)) ∧
      (text.length < 2 ^ 53 → (ends = true ↔ needle.length ≤ text.length ∧
        value (call ".slice" [p, call "-" [length p, length q]]) (.text needle))) := by
  intro value call index length
  have hmethod (symbol name : String) (v : Value)
      (hname : Member.ofSymbol? symbol = some (.method name))
      (h : ∀ heap, Host.methodPlan heap (.text text) name [.text needle] = .ok (.give v)) :
      value (call symbol [p, q]) v :=
    Settles.lift (evaluates_method symbol name l hname (.cons hp (.cons hq .nil)) h) (by omega)
  refine ⟨_, _, _, _,
    hmethod ".indexOf" "indexOf" _ rfl fun heap => Host.indexOf_eq heap text needle,
    hmethod ".includes" "includes" _ rfl fun _ => rfl,
    hmethod ".startsWith" "startsWith" _ rfl fun _ => rfl,
    hmethod ".endsWith" "endsWith" _ rfl fun _ => rfl,
    ?_, ?_, fun hincludes => ?_, fun hlength => ?_⟩
  · rw [Number.elim_eq_neg_one_iff, Text.indexOf?_bytes, Option.isSome_map,
      Option.isSome_eq_false_iff, Option.isNone_iff_eq_none]
  · rw [Number.elim_eq_zero_iff, Text.indexOf?_eq_some_zero_iff, List.isPrefixOf_iff_prefix,
      Text.bytes_prefix_bytes]
  · rw [Text.indexOf?_bytes, Option.isSome_map] at hincludes
    obtain ⟨i, hi⟩ := Option.isSome_iff_exists.1 hincludes
    have hleast := Text.isLeast_of_indexOf? hi
    have hslice hlength := isLeast_slice std l hp hq hlength hroom hleast
    simp only [Text.occursAt_iff_cut] at hleast
    rw [String.length_toList] at hleast hslice
    exact ⟨i, by rw [hi, Option.elim_some], hleast, hslice⟩
  · rw [← String.length_toList] at hlength
    rw [← String.length_toList, ← String.length_toList, List.isSuffixOf_iff_suffix,
      Text.bytes_suffix_bytes]
    constructor
    · intro hsuffix
      have hslice := evaluates_slice_last std l hp hq hlength hsuffix.length_le
      rw [← List.suffix_iff_eq_drop.1 hsuffix, String.ofList_toList] at hslice
      exact ⟨hsuffix.length_le, hslice⟩
    · rintro ⟨hle, hvalue⟩
      have hslice := evaluates_slice_last std l hp hq hlength hle
      rw [← Value.text.inj (hslice.unique hroom hvalue), String.toList_ofList]
      exact List.drop_suffix _ _

/-- Characters of two bytes around the place, and a needle that also ends the text. -/
theorem text_places_agree_accents :
    let l : Location := ⟨"a", ⟨1, 1⟩⟩
    let value := Config.default.Evaluates Prelude.session 7 .empty
    let call name operands := Form.call (.symbol name :: operands) l
    let p : Form := .atom (.text "éaéaé")
    let q : Form := .atom (.text "aé")
    let index i := Form.atom (.number (Float.ofNat i))
    let length r := call ".-length" [r]
    Config.default.Standard ["-", "*", "+", "apply"] .empty Prelude.session ∧
      ∃ (place : Number) (includes ends : Bool), value (call ".indexOf" [p, q]) (.number place) ∧
        value (call ".includes" [p, q]) (.bool includes) ∧
        value (call ".endsWith" [p, q]) (.bool ends) ∧
        (place = -1 ↔ includes = false) ∧
        (includes = true → ∃ i, place = Float.ofNat i ∧ IsLeast {j | value
          (call ".slice" [p, index j, call "+" [index j, length q]]) (.text "aé")} i) ∧
        (ends = true ↔ 2 ≤ 5 ∧
          value (call ".slice" [p, call "-" [length p, length q]]) (.text "aé")) := by
  intro l value call p q index length
  have std := @standard_session Config.default rfl (by decide) ["-", "*", "+", "apply"]
  obtain ⟨place, includes, starts, ends, hplace, hincludes, -, hends, hfail, -, hleast, hlast⟩ :=
    @text_places_agree Config.default Prelude.session .empty 1 p q "éaéaé" "aé" std l
      (settles_atom _) (settles_atom _) (by decide)
  refine ⟨std, place, includes, ends, hplace, hincludes, hends, hfail, fun h => ?_, ?_⟩
  · obtain ⟨i, hi, -, hslice⟩ := hleast h
    exact ⟨i, hi, hslice (by decide)⟩
  · exact hlast (by decide)

end Config

end Lisplet
