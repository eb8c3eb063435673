import Lisplet.Proofs.Magnitudes
import Lisplet.Proofs.Sequences

/-!
Slices of lists and texts. Positions are found in floating-point arithmetic. In a sequence of less
than `2 ^ 53` items they are the positions that exact arithmetic finds, so a slice is never out of
range, and the two slices at any number are the whole sequence.
-/

namespace Lisplet

namespace Number

/-- The place in a sequence that a number stands for: its whole part, counted from the end if that
is negative, and moved to the near end if there is no such place. NaN stands for the end. -/
def Parts.place (length : Nat) : Parts → Nat
  | .nan => length
  | .infinite negative => if negative then 0 else length
  | .finite negative m q =>
    let whole := ⌊(m : ℚ) * 2 ^ q⌋₊
    if negative = true ∧ 0 < whole then length - whole else min whole length

theorem Parts.place_le (length : Nat) (p : Parts) : p.place length ≤ length := by
  rcases p with _ | negative | ⟨negative, m, q⟩ <;> simp only [Parts.place]
  · exact le_rfl
  · split <;> omega
  · split <;> omega

theorem elim_place_le (x? : Option Number) {default length : Nat} (h : default ≤ length) :
    x?.elim default (·.parts.place length) ≤ length := by
  rcases x? with _ | x
  · exact h
  · exact Parts.place_le length x.parts

theorem place_zero (length : Nat) : (0 : Number).parts.place length = 0 := by
  have hparts : (0 : Number).parts = .finite false 0 (-1074) := rfl
  simp [hparts, Parts.place]

theorem splitWhole_eq_floor (m : Nat) (q : Int) : (splitWhole m q).1 = ⌊(m : ℚ) * 2 ^ q⌋₊ := by
  rw [zpow_eq_toNat_div, mul_div_assoc']
  exact_mod_cast (Nat.floor_div_eq_div (K := ℚ) (m * 2 ^ q.toNat) (2 ^ (-q).toNat)).symm

variable {x : Number} {negative : Bool} {n length : Nat}

theorem IsWhole.lt_zero_iff (h : IsWhole x negative n) : x < 0 ↔ negative = true ∧ 0 < n := by
  have hzero : IsWhole 0 false 0 := isWhole_ofNat (by decide)
  rw [h.lt_iff hzero]
  cases negative <;> simp [withSign]

theorem clampNat_length (hlength : length < 2 ^ 53) :
    clampNat 64 (Float.ofNat length) = length := by
  rw [(isWhole_ofNat hlength).clampNat_eq]
  simp
  omega

/-- A whole number that is not below zero is cut off at the length, its zero having either sign. -/
theorem IsWhole.clampNat_lesser (h : IsWhole x negative n) (hsign : negative = true → n = 0)
    (hlength : length < 2 ^ 53) :
    clampNat 64 (lesser x (Float.ofNat length)) = min n length := by
  have hend := isWhole_ofNat hlength
  have hlt : Float.ofNat length < x ↔ length < n := by
    rw [hend.lt_iff h]
    cases negative with
    | false => simp [withSign]
    | true => simp [withSign, hsign rfl]
  have hclamp : clampNat 64 x = min n (2 ^ 64 - 1) := by
    rw [h.clampNat_eq]
    cases negative with
    | false => rfl
    | true => simp [hsign rfl]
  unfold lesser
  simp only [h.isNaN_eq, hend.isNaN_eq, Bool.false_eq_true, if_false, hlt]
  split
  · rw [clampNat_length hlength]
    omega
  · rw [hclamp]
    omega

end Number

namespace HostCall

open Number

variable {x : Number} {length : Nat}

theorem position_of_finite {negative : Bool} {m : Nat} {q : Int} (hlength : length < 2 ^ 53)
    (h : x.parts = .finite negative m q) : position length x = x.parts.place length := by
  have hwhole := isWhole_trunc h
  rw [splitWhole_eq_floor] at hwhole
  rw [h]
  unfold position Parts.place
  simp only [hwhole.lt_zero_iff]
  split
  · rename_i hbelow
    obtain ⟨rfl, hpos⟩ := hbelow
    rw [clampNat_greater_zero, clampNat_ofNat_add hlength hwhole hpos]
  · rename_i hbelow
    exact hwhole.clampNat_lesser (by simpa using hbelow) hlength

theorem position_of_infinite {negative : Bool} (hlength : length < 2 ^ 53)
    (h : x.parts = .infinite negative) : position length x = x.parts.place length := by
  have htrunc : trunc x = x := by simp [trunc, toWhole, h]
  obtain ⟨m, q, hend, -⟩ := isWhole_ofNat hlength
  unfold position
  rw [htrunc, h]
  cases negative with
  | true =>
    have hbelow : x < 0 := by
      rw [lt_iff_compare, unpack_eq, h]
      rfl
    have hneg : IsNegative (.add .binary64 (Parts.finite false m q).unpacked
        (Parts.infinite true).unpacked) := by
      simp only [Parts.unpacked]
      split <;> rfl
    simp only [if_pos hbelow, clampNat_greater_zero, add_eq, hend.parts_eq, h]
    exact hneg.clampNat_eq 64
  | false =>
    have hbelow : ¬x < 0 := by
      rw [lt_iff_compare, unpack_eq, h]
      rintro ⟨⟩
    have hnan : x.isNaN = false := by
      rw [isNaN_eq_unpacked, h]
      rfl
    have hlt : Float.ofNat length < x := by
      rw [lt_iff_compare, hend.unpack_eq, unpack_eq, h]
      simp only [Parts.unpacked]
      split <;> rfl
    simp only [if_neg hbelow, lesser, hnan, hend.isNaN_eq, Bool.false_eq_true, if_false, if_pos hlt,
      clampNat_length hlength]
    rfl

theorem position_of_nan (hlength : length < 2 ^ 53) (h : x.parts = .nan) :
    position length x = x.parts.place length := by
  have htrunc : trunc x = x := by simp [trunc, toWhole, h]
  have hnan : x.isNaN = true := by rw [isNaN_eq_unpacked, h]; rfl
  have hbelow : ¬x < 0 := by rw [lt_iff_compare, unpack_eq, h]; rintro ⟨⟩
  unfold position
  simp only [htrunc, if_neg hbelow, lesser, if_pos hnan, clampNat_length hlength, h]
  rfl

theorem position_eq (hlength : length < 2 ^ 53) (x : Number) :
    position length x = x.parts.place length := by
  rcases h : x.parts with _ | negative | ⟨negative, m, q⟩ <;> rw [← h]
  · exact position_of_nan hlength h
  · exact position_of_infinite hlength h
  · exact position_of_finite hlength h

theorem positionArg_eq (hlength : length < 2 ^ 53) (path : String) (args : List Number)
    (i default : Nat) :
    positionArg ⟨path, args.map .number⟩ length i default =
      .ok (args[i]?.elim default (·.parts.place length)) := by
  unfold positionArg
  rw [List.getElem?_map]
  rcases args[i]? with _ | x
  · rfl
  · change Except.ok (position length x) = _
    rw [position_eq hlength]
    rfl

theorem bounds_eq (hlength : length < 2 ^ 53) (path : String) (args : List Number) :
    let start := args[0]?.elim 0 (·.parts.place length)
    let stop := args[1]?.elim length (·.parts.place length)
    bounds ⟨path, args.map .number⟩ length = .ok (start, max start stop) := by
  unfold bounds
  rw [positionArg_eq hlength, positionArg_eq hlength]
  rfl

end HostCall

namespace Value

theorem charsOf_append (s t : String) : charsOf (s ++ t) = charsOf s ++ charsOf t := by
  simp only [charsOf, String.toList_append, List.map_append]

theorem charsOf_injective : Function.Injective charsOf := by
  intro s t h
  have hchar : Function.Injective ofChar := by
    intro c d h
    simpa [ofChar] using h
  exact String.toList_injective (List.map_injective_iff.2 hchar h)

end Value

namespace Value.Sequence

variable {v w : Value} {items others : List Value} {start stop : Nat}

/-- A slice has the kind of what it is cut from. -/
theorem slice_eq (hv : Sequence v items) (s : Session) {args : List Value}
    (hbounds : HostCall.bounds ⟨".slice", args⟩ items.length = .ok (start, stop)) :
    ∃ w, Host.method v "slice" args s = .ok w s ∧ w.kind = v.kind ∧
      Sequence w (Text.cut start stop items) := by
  cases hv with
  | list =>
    refine ⟨.list (Text.cut start stop items), Host.method_of_plan (e := .give _) ?_, rfl, .list _⟩
    change (Effect.give <$> (HostCall.slice ⟨".slice", args⟩ items >>= _)) = _
    rw [HostCall.slice, hbounds]
    rfl
  | text t =>
    rw [charsOf, List.length_map] at hbounds
    have hcut : Text.cut start stop (charsOf t) =
        charsOf (String.ofList (Text.cut start stop t.toList)) := by
      simp only [charsOf, Text.cut, String.toList_ofList, List.map_take, List.map_drop]
    refine ⟨.text (String.ofList (Text.cut start stop t.toList)),
      Host.method_of_plan (e := .give _) ?_, rfl, hcut ▸ .text _⟩
    change (Effect.give <$> (HostCall.slice ⟨".slice", args⟩ t.toList >>= _)) = _
    rw [HostCall.slice, hbounds]
    rfl

theorem concat_eq {x : Value} (hv : Sequence v items) (hw : Sequence w others)
    (hx : Sequence x (items ++ others)) (hkind : v.kind = x.kind) (hkind' : w.kind = x.kind)
    (s : Session) : Host.method v "concat" [w] s = .ok x s := by
  refine Host.method_of_plan (e := .give x) ?_
  generalize hall : items ++ others = all at hx
  cases hx with
  | list =>
    cases hv with
    | text => cases hkind
    | list =>
      cases hw with
      | text => cases hkind'
      | list =>
        change Except.ok (Effect.give (.list (items ++ (others ++ [])))) = _
        rw [List.append_nil, hall]
  | text u =>
    cases hv with
    | list => cases hkind
    | text s =>
      cases hw with
      | list => cases hkind'
      | text t =>
        rw [← charsOf_append] at hall
        rw [← charsOf_injective hall]
        change Except.ok (Effect.give (.text (s ++ String.join [t]))) = _
        simp

end Value.Sequence

namespace Host

/-- A list or text of less than `2 ^ 53` items can be sliced at any numbers, among them infinities
and NaN. The slice starts no later than it stops and stops no further than the end, both where exact
arithmetic puts them, and it has the items in between. The slice up to a number and the slice from
that number on make up the whole. -/
theorem slices_in_range_and_split (s : Session) {v : Value} {items : List Value}
    (hv : v.Sequence items) (hlength : items.length < 2 ^ 53) :
    (∀ args : List Number, ∃ start stop w,
      HostCall.bounds ⟨".slice", args.map .number⟩ items.length = .ok (start, stop) ∧
      start = args[0]?.elim 0 (·.parts.place items.length) ∧
      stop = max start (args[1]?.elim items.length (·.parts.place items.length)) ∧
      start ≤ stop ∧ stop ≤ items.length ∧
      method v "slice" (args.map .number) s = .ok w s ∧ w.kind = v.kind ∧
      w.Sequence (Text.cut start stop items)) ∧
    ∀ k : Number, ∃ front back,
      method v "slice" [.number 0, .number k] s = .ok front s ∧
      method v "slice" [.number k] s = .ok back s ∧
      front.Sequence (items.take (k.parts.place items.length)) ∧
      back.Sequence (items.drop (k.parts.place items.length)) ∧
      method front "concat" [back] s = .ok v s := by
  refine ⟨fun args => ?_, fun k => ?_⟩
  · have hbounds := HostCall.bounds_eq hlength ".slice" args
    obtain ⟨w, hslice, hkind, hw⟩ := hv.slice_eq s hbounds
    have hstop := Nat.max_le.2 ⟨Number.elim_place_le args[0]? (Nat.zero_le items.length),
      Number.elim_place_le args[1]? le_rfl⟩
    exact ⟨_, _, w, hbounds, rfl, rfl, Nat.le_max_left _ _, hstop, hslice, hkind, hw⟩
  · have hplace := Number.Parts.place_le items.length k.parts
    have hfront : HostCall.bounds ⟨".slice", [.number 0, .number k]⟩ items.length =
        .ok (0, k.parts.place items.length) := by
      simpa [Number.place_zero] using HostCall.bounds_eq hlength ".slice" [0, k]
    have hback : HostCall.bounds ⟨".slice", [.number k]⟩ items.length =
        .ok (k.parts.place items.length, items.length) := by
      simpa [hplace] using HostCall.bounds_eq hlength ".slice" [k]
    obtain ⟨front, hfront, hfrontKind, hfrontItems⟩ := hv.slice_eq s hfront
    obtain ⟨back, hback, hbackKind, hbackItems⟩ := hv.slice_eq s hback
    rw [Text.cut, List.drop_zero] at hfrontItems
    rw [Text.cut, List.take_length] at hbackItems
    refine ⟨front, back, hfront, hback, hfrontItems, hbackItems, ?_⟩
    refine hfrontItems.concat_eq hbackItems ?_ hfrontKind hbackKind s
    rwa [List.take_append_drop]

/-- A text sliced from before its start to NaN, and at a fraction counted from its end. -/
theorem slices_in_range_and_split_text :
    (∃ start stop w,
      HostCall.bounds ⟨".slice", [.number (-1e300), .number (0 / 0)]⟩ 3 = .ok (start, stop) ∧
      start ≤ stop ∧ stop ≤ 3 ∧
      method (.text "abc") "slice" [.number (-1e300), .number (0 / 0)] .initial =
        .ok w .initial) ∧
    ∃ front back,
      method (.text "abc") "slice" [.number 0, .number (-1.5)] .initial = .ok front .initial ∧
      method (.text "abc") "slice" [.number (-1.5)] .initial = .ok back .initial ∧
      method front "concat" [back] .initial = .ok (.text "abc") .initial := by
  obtain ⟨hrange, hsplit⟩ := slices_in_range_and_split .initial (.text "abc") (by decide)
  obtain ⟨start, stop, w, hbounds, -, -, hle, hstop, hslice, -⟩ := hrange [-1e300, 0 / 0]
  obtain ⟨front, back, hfront, hback, -, -, hconcat⟩ := hsplit (-1.5)
  exact ⟨⟨start, stop, w, hbounds, hle, hstop, hslice⟩, front, back, hfront, hback, hconcat⟩

end Host

end Lisplet
