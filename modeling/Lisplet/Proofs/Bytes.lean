import Lisplet.Proofs.Occurrences
import Mathlib

/-!
Texts and their bytes. The first byte of a character is none of the further bytes of any character,
and no character's bytes start those of another. So the bytes of a text that is not empty stand
among those of another only where its characters do, and the characters that begin before such a
place are as many as stand before it: searching by bytes finds the position in characters.
-/

namespace Lisplet.Text

variable {needle cs : List Char} {i k : Nat}

theorem bytes_cons (c : Char) (cs : List Char) :
    bytes (c :: cs) = String.utf8EncodeChar c ++ bytes cs := List.flatMap_cons

theorem bytes_eq_nil_iff : bytes cs = [] ↔ cs = [] := by
  cases cs with
  | nil => exact iff_of_true rfl rfl
  | cons c cs =>
    rw [bytes_cons, List.append_eq_nil_iff]
    exact iff_of_false (fun h => String.utf8EncodeChar_ne_nil h.1) (List.cons_ne_nil c cs)

/-- A character begins in its first byte and in no other. -/
theorem charCount_utf8EncodeChar (c : Char) : charCount (String.utf8EncodeChar c) = 1 := by
  have hfirst {i : Nat} (hi : i < (String.utf8EncodeChar c).length) :
      (String.utf8EncodeChar c)[i].IsUTF8FirstByte ↔ i = 0 :=
    UInt8.isUTF8FirstByte_getElem_utf8EncodeChar
  have hne : String.utf8EncodeChar c ≠ [] := String.utf8EncodeChar_ne_nil
  generalize String.utf8EncodeChar c = bs at hfirst hne
  cases bs with
  | nil => exact absurd rfl hne
  | cons b bs =>
    have hb : b.IsUTF8FirstByte := (hfirst (Nat.zero_lt_succ _)).2 rfl
    have hbs : bs.countP (fun b => decide b.IsUTF8FirstByte) = 0 := by
      rw [List.countP_eq_zero]
      intro x hx
      obtain ⟨j, hj, rfl⟩ := List.mem_iff_getElem.1 hx
      simpa using (hfirst (Nat.succ_lt_succ hj)).not.2 (Nat.succ_ne_zero j)
    rw [charCount, List.countP_cons_of_pos (by simpa using hb), hbs]

theorem charCount_bytes (cs : List Char) : charCount (bytes cs) = cs.length := by
  induction cs with
  | nil => rfl
  | cons c cs ih =>
    rw [bytes_cons, charCount, List.countP_append, ← charCount, ← charCount,
      charCount_utf8EncodeChar, ih, List.length_cons, Nat.add_comm]

/-- Bytes start with those of one character at most. -/
theorem eq_of_utf8EncodeChar_append {c d : Char} {xs ys : List UInt8}
    (h : String.utf8EncodeChar c ++ xs = String.utf8EncodeChar d ++ ys) : c = d := by
  have hdecode (c : Char) (xs : List UInt8) :
      (String.utf8EncodeChar c ++ xs).toByteArray.utf8DecodeChar? 0 = some c := by
    rw [List.toByteArray_append, ByteArray.utf8DecodeChar?_utf8EncodeChar_append]
  exact Option.some.inj ((hdecode c xs).symm.trans (h ▸ hdecode d ys))

theorem bytes_prefix_bytes : bytes needle <+: bytes cs ↔ needle <+: cs := by
  induction needle generalizing cs with
  | nil => exact iff_of_true List.nil_prefix List.nil_prefix
  | cons n needle ih =>
    cases cs with
    | nil => simp [bytes_eq_nil_iff, List.prefix_nil, show bytes [] = [] from rfl]
    | cons c cs =>
      rw [List.cons_prefix_cons, ← ih, bytes_cons, bytes_cons]
      constructor
      · rintro ⟨rest, h⟩
        rw [List.append_assoc] at h
        obtain rfl := eq_of_utf8EncodeChar_append h
        exact ⟨rfl, rest, List.append_cancel_left h⟩
      · rintro ⟨rfl, h⟩
        exact (List.prefix_append_right_inj _).2 h

theorem bytes_injective : Function.Injective bytes := by
  intro cs ds h
  have hstarts : cs <+: ds := bytes_prefix_bytes.1 (h ▸ List.prefix_rfl)
  have hstarts' : ds <+: cs := bytes_prefix_bytes.1 (h ▸ List.prefix_rfl)
  exact hstarts.eq_of_length_le hstarts'.length_le

/-! Positions. -/

/-- How many bytes stand before a position. -/
def offset (cs : List Char) (i : Nat) : Nat := (bytes (cs.take i)).length

theorem bytes_eq_take_append_drop (cs : List Char) (i : Nat) :
    bytes cs = bytes (cs.take i) ++ bytes (cs.drop i) := by
  rw [bytes, bytes, bytes, ← List.flatMap_append, List.take_append_drop]

theorem take_offset (cs : List Char) (i : Nat) :
    (bytes cs).take (offset cs i) = bytes (cs.take i) := by
  rw [bytes_eq_take_append_drop cs i, offset, List.take_left]

theorem drop_offset (cs : List Char) (i : Nat) :
    (bytes cs).drop (offset cs i) = bytes (cs.drop i) := by
  rw [bytes_eq_take_append_drop cs i, offset, List.drop_left]

theorem offset_mono (cs : List Char) : Monotone (offset cs) := by
  intro i j hij
  have hstarts : cs.take i <+: cs.take j := List.take_prefix_take_left hij
  exact (bytes_prefix_bytes.2 hstarts).length_le

/-- A byte in which a character begins stands at a position. -/
theorem exists_offset_eq {b : UInt8} (hb : (bytes cs)[k]? = some b) (hfirst : b.IsUTF8FirstByte) :
    ∃ i, k = offset cs i := by
  induction cs generalizing k with
  | nil => cases hb
  | cons c cs ih =>
    rw [bytes_cons] at hb
    rcases Nat.lt_or_ge k (String.utf8EncodeChar c).length with hk | hk
    · rw [List.getElem?_append_left hk, List.getElem?_eq_getElem hk] at hb
      obtain rfl := Option.some.inj hb
      exact ⟨0, UInt8.isUTF8FirstByte_getElem_utf8EncodeChar.1 hfirst⟩
    · rw [List.getElem?_append_right hk] at hb
      obtain ⟨i, hi⟩ := ih hb
      refine ⟨i + 1, ?_⟩
      rw [offset, List.take_succ_cons, bytes_cons, List.length_append, ← offset, ← hi]
      omega

/-- The bytes of a text that is not empty start with one in which a character begins. -/
theorem exists_head_bytes (hne : needle ≠ []) :
    ∃ b bs, bytes needle = b :: bs ∧ b.IsUTF8FirstByte := by
  cases needle with
  | nil => exact absurd rfl hne
  | cons c cs =>
    cases hbytes : bytes (c :: cs) with
    | nil => exact absurd (bytes_eq_nil_iff.1 hbytes) hne
    | cons b bs =>
      refine ⟨b, bs, rfl, ?_⟩
      have hlength : 0 < (String.utf8EncodeChar c).length :=
        List.length_pos_iff.2 String.utf8EncodeChar_ne_nil
      have hb : (String.utf8EncodeChar c)[0] = b := by
        have hhead := congrArg (·[0]?) hbytes
        simpa [bytes_cons, List.getElem?_append_left hlength, List.getElem?_eq_getElem hlength]
          using hhead
      rw [← hb]
      exact UInt8.isUTF8FirstByte_getElem_utf8EncodeChar.2 rfl

/-! Occurrences by bytes. -/

theorem occursAt_offset :
    OccursAt (bytes needle) (bytes cs) (offset cs i) ↔ OccursAt needle cs i := by
  rw [OccursAt, OccursAt, drop_offset, bytes_prefix_bytes]

/-- Bytes of a text that is not empty occur at positions only. -/
theorem exists_occursAt (hne : needle ≠ []) (h : OccursAt (bytes needle) (bytes cs) k) :
    ∃ i, k = offset cs i ∧ OccursAt needle cs i := by
  obtain ⟨b, bs, hbytes, hfirst⟩ := exists_head_bytes hne
  have hb : (bytes cs)[k]? = some b := by
    obtain ⟨rest, hrest⟩ := h
    rw [hbytes] at hrest
    rw [← List.head?_drop, ← hrest]
    rfl
  obtain ⟨i, rfl⟩ := exists_offset_eq hb hfirst
  exact ⟨i, rfl, occursAt_offset.1 h⟩

theorem indexOf?_bytes (needle cs : List Char) :
    indexOf? (bytes needle) (bytes cs) = (indexOf? needle cs).map (offset cs) := by
  cases hfound : indexOf? needle cs with
  | none =>
    cases hbytes : indexOf? (bytes needle) (bytes cs) with
    | none => rfl
    | some k =>
      have hne : needle ≠ [] := by
        rintro rfl
        exact indexOf?_eq_none hfound 0 List.nil_prefix
      obtain ⟨i, -, hi⟩ := exists_occursAt hne (isLeast_of_indexOf? hbytes).1
      exact absurd hi (indexOf?_eq_none hfound i)
  | some i =>
    obtain ⟨hoccurs, hleast⟩ := isLeast_of_indexOf? hfound
    refine indexOf?_eq_some_of_isLeast ⟨occursAt_offset.2 hoccurs, fun k hk => ?_⟩
    rcases eq_or_ne needle [] with rfl | hne
    · obtain rfl : i = 0 := Nat.le_zero.1 (hleast List.nil_prefix)
      exact Nat.zero_le k
    · obtain ⟨j, rfl, hj⟩ := exists_occursAt hne hk
      exact offset_mono cs (hleast hj)

/-- The characters before the first occurrence by bytes are as many as its position says. -/
theorem position?_eq_indexOf? (needle cs : List Char) :
    position? needle cs = indexOf? needle cs := by
  rw [position?, indexOf?_bytes, Option.map_map]
  cases hfound : indexOf? needle cs with
  | none => rfl
  | some i =>
    have hle : i ≤ cs.length :=
      le_of_add_le_left (add_length_le_of_isLeast (isLeast_of_indexOf? hfound))
    rw [Option.map_some, Function.comp_apply, take_offset, charCount_bytes, List.length_take,
      Nat.min_eq_left hle]

theorem bytes_suffix_bytes : bytes needle <:+ bytes cs ↔ needle <:+ cs := by
  constructor
  · intro h
    rcases eq_or_ne needle [] with rfl | hne
    · exact List.nil_suffix
    · have hdrop := List.suffix_iff_eq_drop.1 h
      have hoccurs : OccursAt (bytes needle) (bytes cs)
          ((bytes cs).length - (bytes needle).length) := by
        rw [OccursAt, ← hdrop]
      obtain ⟨i, hi, -⟩ := exists_occursAt hne hoccurs
      rw [hi, drop_offset] at hdrop
      rw [bytes_injective hdrop]
      exact List.drop_suffix i cs
  · rintro ⟨before, rfl⟩
    exact ⟨bytes before, List.flatMap_append.symm⟩

end Lisplet.Text
