import Lisplet.Json.Reader
import Lisplet.Proofs.Tables
import Lisplet.Proofs.WholeNumbers
import Lisplet.Value.Table
import Mathlib

/-!
Reading documents that have been written. A text reads back from its escapes, and a safe whole
number from its digits, as long as nothing after it can belong to a number. A document takes no more
room to read than it is nested deep, and no more fuel than its text is long, so it reads back
wherever there is that much room: as a document that records the same data.
-/

namespace Lisplet

namespace Json

/-! Texts. -/

theorem hexValue?_digitChar {n : Nat} (hn : n < 16) : hexValue? (hexDigit n) = some n := by
  revert n
  decide

/-- A numeric escape reads back as its character. -/
theorem readUnit_escape {c : Char} (hc : c.toNat < 0x20) (rest : List Char) :
    readUnit ('0' :: '0' :: hexDigit (c.toNat / 16) :: hexDigit (c.toNat % 16) :: rest) =
      .ok (c, rest) := by
  have hhex : readHex ('0' :: '0' :: hexDigit (c.toNat / 16) :: hexDigit (c.toNat % 16) :: rest) =
      .ok (c.toNat, rest) := by
    have hzero : hexValue? '0' = some 0 := rfl
    simp only [readHex, List.take_succ_cons, List.take_zero, List.map_cons, List.map_nil, hzero,
      hexValue?_digitChar (show c.toNat / 16 < 16 by omega),
      hexValue?_digitChar (show c.toNat % 16 < 16 by omega)]
    rw [show ((0 * 16 + 0) * 16 + c.toNat / 16) * 16 + c.toNat % 16 = c.toNat by omega]
    rfl
  have htrailing : isTrailing c.toNat = false := by simp [isTrailing]; omega
  have hleading : isLeading c.toNat = false := by simp [isLeading]; omega
  simp [readUnit, hhex, bind, Except.bind, htrailing, hleading]

/-- A character is written as itself, behind a backslash or by its number. -/
theorem escapeChar_cases (c : Char) :
    (escapeChar c = [c] ∧ c ≠ '"' ∧ c ≠ '\\' ∧ 0x20 ≤ c.toNat) ∨
    (∃ e, escapeChar c = ['\\', e] ∧ e ≠ 'u' ∧ simpleEscape? e = some c) ∨
    (escapeChar c = ['\\', 'u', '0', '0', hexDigit (c.toNat / 16), hexDigit (c.toNat % 16)] ∧
      c.toNat < 0x20) := by
  have heq : ∀ d : Char, c.toNat = d.toNat → c = d := fun d h => Char.toNat_inj.1 h
  unfold escapeChar
  split_ifs with hquote hback h8 h9 ha hc hd hlow
  · exact .inr (.inl ⟨'"', rfl, by decide, by rw [hquote]; rfl⟩)
  · exact .inr (.inl ⟨'\\', rfl, by decide, by rw [hback]; rfl⟩)
  · exact .inr (.inl ⟨'b', rfl, by decide, by rw [heq '\x08' h8]; rfl⟩)
  · exact .inr (.inl ⟨'t', rfl, by decide, by rw [heq '\t' h9]; rfl⟩)
  · exact .inr (.inl ⟨'n', rfl, by decide, by rw [heq '\n' ha]; rfl⟩)
  · exact .inr (.inl ⟨'f', rfl, by decide, by rw [heq '\x0c' hc]; rfl⟩)
  · exact .inr (.inl ⟨'r', rfl, by decide, by rw [heq '\r' hd]; rfl⟩)
  · exact .inr (.inr ⟨rfl, hlow⟩)
  · exact .inl ⟨rfl, hquote, hback, Nat.le_of_not_lt hlow⟩

theorem readText_escapeChar (fuel : Nat) (c : Char) (rest : List Char) :
    readText (fuel + 1) (escapeChar c ++ rest) =
      (readText fuel rest).map fun r => (c :: r.1, r.2) := by
  have hback : '\\' ≠ '"' := by decide
  rcases escapeChar_cases c with ⟨heq, hquote, hc, hlow⟩ | ⟨e, heq, hu, hsimple⟩ | ⟨heq, hlow⟩
  · have hcontrol : ¬c.toNat < 0x20 := Nat.not_lt.2 hlow
    simp only [heq, List.singleton_append, readText, hquote, hc, hcontrol, if_false]
    cases readText fuel rest <;> rfl
  · rw [heq]
    change readText (fuel + 1) ('\\' :: e :: rest) = _
    simp only [readText, if_neg hback, if_neg hu, hsimple, if_true]
    cases readText fuel rest <;> rfl
  · rw [heq]
    change readText (fuel + 1) ('\\' :: 'u' :: '0' :: '0' :: hexDigit (c.toNat / 16) ::
      hexDigit (c.toNat % 16) :: rest) = _
    simp only [readText, if_neg hback, readUnit_escape hlow, if_true]
    change ((readText fuel rest).bind fun r => .ok (c :: r.1, r.2)) = _
    cases readText fuel rest <;> rfl

theorem readText_escaped {fuel : Nat} (cs rest : List Char) (hfuel : cs.length < fuel) :
    readText fuel (cs.flatMap escapeChar ++ '"' :: rest) = .ok (cs, rest) := by
  obtain ⟨fuel, rfl⟩ := Nat.exists_eq_succ_of_ne_zero (Nat.ne_zero_of_lt hfuel)
  induction cs generalizing fuel with
  | nil => rfl
  | cons c cs ih =>
    simp only [List.length_cons] at hfuel
    obtain ⟨fuel, rfl⟩ := Nat.exists_eq_succ_of_ne_zero (show fuel ≠ 0 by omega)
    rw [List.flatMap_cons, List.append_assoc, readText_escapeChar, ih fuel (by omega)]
    rfl

/-! Numbers. -/

theorem toDigits_head {n : Nat} (hn : 0 < n) :
    ∃ c cs, Nat.toDigits 10 n = c :: cs ∧ c ≠ '0' := by
  induction n using Nat.strong_induction_on with
  | _ n ih =>
    by_cases hlt : n < 10
    · rw [Nat.toDigits_of_lt_base hlt]
      refine ⟨_, _, rfl, ?_⟩
      interval_cases n <;> decide
    · obtain ⟨c, cs, hcs, hc⟩ := ih (n / 10) (by omega) (by omega)
      rw [Nat.toDigits_of_base_le (by decide) (Nat.le_of_not_lt hlt), hcs]
      exact ⟨c, _, rfl, hc⟩

/-- No digit, point or exponent follows: a number in front ends there. -/
def Closes (rest : List Char) : Prop :=
  ∀ c ∈ rest.head?, c.isDigit = false ∧ c ≠ '.' ∧ isExponentMark c = false

theorem le_ofDigitChars (ds : List Char) (n : Nat) : n ≤ Nat.ofDigitChars 10 ds n := by
  rw [Nat.ofDigitChars_eq_ofDigitChars_zero]
  have hpow : 0 < 10 ^ ds.length := Nat.pow_pos (by decide)
  have hle : 1 * n ≤ 10 ^ ds.length * n := Nat.mul_le_mul_right n hpow
  omega

theorem takeDigits_append {limit n : Nat} {ds rest : List Char}
    (hds : ∀ c ∈ ds, c.isDigit = true) (hlimit : Nat.ofDigitChars 10 ds n ≤ limit)
    (hrest : Closes rest) :
    takeDigits limit n (ds ++ rest) = (Nat.ofDigitChars 10 ds n, ds.length, rest) := by
  induction ds generalizing n with
  | nil =>
    cases rest with
    | nil => rfl
    | cons c rest => simp [takeDigits, (hrest c rfl).1]
  | cons d ds ih =>
    obtain ⟨hd, hds⟩ := List.forall_mem_cons.1 hds
    have hstep : n * 10 + digitValue d = 10 * n + (d.toNat - '0'.toNat) := by
      rw [digitValue]
      omega
    rw [Nat.ofDigitChars_cons] at hlimit ⊢
    have hle := Nat.le_trans (le_ofDigitChars ds _) hlimit
    rw [List.cons_append, takeDigits, hd, hstep]
    simp only [hle, decide_true, Bool.and_true, if_true]
    rw [ih hds hlimit]
    rfl

theorem readScaled_closes (negative : Bool) (n : Nat) {rest : List Char} (hrest : Closes rest) :
    readScaled negative n 0 rest = .ok (signedNumber negative (Float.ofNat n), rest) := by
  cases rest with
  | nil => rfl
  | cons c rest =>
    obtain ⟨-, hpoint, hmark⟩ := hrest c rfl
    unfold readScaled
    split
    · rename_i heq
      exact absurd (List.cons.inj heq).1 hpoint
    · rename_i heq
      obtain ⟨rfl, rfl⟩ := List.cons.inj heq
      simp [hmark]
    · rename_i heq
      cases heq

theorem Closes.digits {rest : List Char} (hrest : Closes rest) :
    startsWithDigit rest = false ∧ rest.takeWhile Char.isDigit = [] ∧
      rest.dropWhile Char.isDigit = rest := by
  cases rest with
  | nil => exact ⟨rfl, rfl, rfl⟩
  | cons c rest => simp [startsWithDigit, (hrest c rfl).1]

/-- A written natural starts with a zero only if that is all of it. -/
theorem not_leading_zero {n : Nat} {c : Char} {cs rest : List Char}
    (hcs : Nat.toDigits 10 n = c :: cs) (hrest : Closes rest) :
    ¬(c = '0' ∧ startsWithDigit (cs ++ rest) = true) := by
  rintro ⟨rfl, hdigit⟩
  rcases Nat.eq_zero_or_pos n with rfl | hn
  · rw [Nat.toDigits_zero] at hcs
    obtain rfl : [] = cs := (List.cons.inj hcs).2
    rw [List.nil_append, hrest.digits.1] at hdigit
    cases hdigit
  · obtain ⟨d, ds, hds, hd⟩ := toDigits_head hn
    rw [hcs] at hds
    exact hd (List.cons.inj hds).1.symm

theorem readNumber_toDigits {n : Nat} (hn : n ≤ Number.maxSafe) (negative : Bool)
    {rest : List Char} (hrest : Closes rest) :
    readNumber negative (Nat.toDigits 10 n ++ rest) =
      .ok (signedNumber negative (Float.ofNat n), rest) := by
  obtain ⟨c, cs, hcs⟩ := List.exists_cons_of_ne_nil (Nat.toDigits_ne_nil (n := n) (b := 10))
  have hdigits : ∀ d ∈ c :: cs, d.isDigit = true := by
    rw [← hcs]
    exact fun d hd => Nat.isDigit_of_mem_toDigits (by decide) (by decide) hd
  have hvalue : Nat.ofDigitChars 10 cs (digitValue c) = n := by
    have hfirst : 10 * 0 + (c.toNat - '0'.toNat) = digitValue c := Nat.zero_add _
    rw [← hfirst, ← Nat.ofDigitChars_cons, ← hcs, Nat.ofDigitChars_ten_toDigits]
  have htake : takeDigits maxWord (digitValue c) (cs ++ rest) = (n, cs.length, rest) := by
    have hlimit : n ≤ maxWord := Nat.le_trans hn (by decide)
    rw [takeDigits_append (List.forall_mem_cons.1 hdigits).2 (by rwa [hvalue]) hrest, hvalue]
  obtain ⟨-, htakeWhile, hdropWhile⟩ := hrest.digits
  rw [hcs, List.cons_append, readNumber, if_neg (not_leading_zero hcs hrest),
    if_pos (hdigits c List.mem_cons_self), htake]
  simp only [htakeWhile, hdropWhile]
  exact readScaled_closes negative n hrest

theorem numberChars_of_isSafe {x : Number} {n : Int} (h : x.IsSafe n) :
    numberChars x = Number.signed (n < 0) (Nat.toDigits 10 n.natAbs) := by
  obtain ⟨negative, m, q, hparts⟩ := h.exists_parts
  rw [numberChars, hparts, h.toInt]
  exact if_pos ⟨h.integral, h.le⟩

end Json

/-! Documents of values. -/

/-- The document records the value: numbers equal, items in their order, and the entries of a table
as members in their order. -/
inductive Heap.Records (h : Heap) : Value → Json → Prop
  | nil : Records h .nil .null
  | bool (b : Bool) : Records h (.bool b) (.bool b)
  | number {x y : Number} (hxy : (y == x) = true) : Records h (.number x) (.number y)
  | text (s : String) : Records h (.text s) (.text s)
  | list {items : List Value} {js : List Json} (hitems : List.Forall₂ (Records h) items js) :
      Records h (.list items) (.array js)
  | table {id : TableId} {members : List (String × Json)}
      (hnames : (members.map Prod.fst).Nodup)
      (hkeys : (h.get id).keys = members.map fun e => .text e.1)
      (hvalues : List.Forall₂ (Records h) (h.get id).values (members.map Prod.snd)) :
      Records h (.table id) (.object members)

namespace Json

/-- Whatever the first document records, the second does. -/
def Restates (j j' : Json) : Prop := ∀ (h : Heap) (v : Value), h.Records v j → h.Records v j'

theorem Restates.refl (j : Json) : j.Restates j := fun _ _ h => h

theorem forall₂_restates {h : Heap} {vs : List Value} {js js' : List Json}
    (hvs : List.Forall₂ h.Records vs js) (hjs : List.Forall₂ Restates js js') :
    List.Forall₂ h.Records vs js' := by
  induction hvs generalizing js' with
  | nil =>
    cases hjs
    exact .nil
  | cons hv _ ih =>
    cases hjs with
    | cons hj hjs => exact .cons (hj h _ hv) (ih hjs)

theorem restates_number {x y : Number} (hyx : (y == x) = true) :
    (number x).Restates (number y) := by
  intro h v hv
  cases hv with
  | number hxz => exact .number (Number.beq_trans hyx hxz)

theorem restates_array {js js' : List Json} (hjs : List.Forall₂ Restates js js') :
    (array js).Restates (array js') := by
  intro h v hv
  cases hv with
  | list hitems => exact .list (forall₂_restates hitems hjs)

theorem restates_object {members members' : List (String × Json)}
    (hnames : members'.map Prod.fst = members.map Prod.fst)
    (hjs : List.Forall₂ Restates (members.map Prod.snd) (members'.map Prod.snd)) :
    (object members).Restates (object members') := by
  intro h v hv
  cases hv with
  | table hnodup hkeys hvalues =>
    have hkeys' : ∀ ms : List (String × Json),
        ms.map (fun e => Value.text e.1) = (ms.map Prod.fst).map Value.text := by simp
    refine .table (hnames ▸ hnodup) ?_ (forall₂_restates hvalues hjs)
    rw [hkeys, hkeys', hkeys', hnames]

/-- The brackets that may still be opened are enough for the document, its numbers are safe and the
names in each object distinct. -/
inductive Fits : (room : Nat) → Json → Prop
  | null (room : Nat) : Fits room .null
  | bool (room : Nat) (b : Bool) : Fits room (.bool b)
  | number (room : Nat) {x : Number} {n : Int} (hx : x.IsSafe n) : Fits room (.number x)
  | text (room : Nat) (s : String) : Fits room (.text s)
  | array {room : Nat} {items : List Json} (hitems : ∀ j ∈ items, Fits room j) :
      Fits (room + 1) (.array items)
  | object {room : Nat} {members : List (String × Json)}
      (hnames : (members.map Prod.fst).Nodup) (hmembers : ∀ e ∈ members, Fits room e.2) :
      Fits (room + 1) (.object members)

/-! What is written comes in front of the rest, with a comma before each item but the first. -/

theorem length_le_writeText (s : String) (rest : List Char) :
    s.toList.length + rest.length < (writeText s rest).length := by
  have hescaped : ∀ cs : List Char, cs.length ≤ (cs.flatMap escapeChar).length := by
    intro cs
    induction cs with
    | nil => exact Nat.le_refl 0
    | cons c cs ih =>
      have hc : 1 ≤ (escapeChar c).length := by
        rcases escapeChar_cases c with ⟨heq, -⟩ | ⟨e, heq, -⟩ | ⟨heq, -⟩ <;> simp [heq]
      rw [List.flatMap_cons, List.length_append, List.length_cons]
      omega
  have hle := hescaped s.toList
  rw [writeText, List.length_cons, List.length_append, List.length_cons]
  omega

mutual

theorem length_le_write (j : Json) (rest : List Char) : rest.length ≤ (j.write rest).length := by
  match j with
  | .null | .bool b | .number x =>
    rw [write, List.length_append]
    omega
  | .text s =>
    have hlt := length_le_writeText s rest
    rw [write]
    omega
  | .array [] | .object [] =>
    rw [write, List.length_cons, List.length_cons]
    omega
  | .array (j :: js) =>
    have hj := length_le_write j (writeItems js (']' :: rest))
    have hjs := length_le_writeItems js (']' :: rest)
    simp only [write, List.length_cons] at hj hjs ⊢
    omega
  | .object ((key, j) :: members) =>
    have hkey := length_le_writeText key (':' :: j.write (writeMembers members ('\x7d' :: rest)))
    have hj := length_le_write j (writeMembers members ('\x7d' :: rest))
    have hmembers := length_le_writeMembers members ('\x7d' :: rest)
    simp only [write, List.length_cons] at hkey hj hmembers ⊢
    omega

theorem length_le_writeItems (js : List Json) (rest : List Char) :
    js.length + rest.length ≤ (writeItems js rest).length := by
  match js with
  | [] => simp [writeItems]
  | j :: js =>
    have hj := length_le_write j (writeItems js rest)
    have hjs := length_le_writeItems js rest
    simp only [writeItems, List.length_cons]
    omega

theorem length_le_writeMembers (members : List (String × Json)) (rest : List Char) :
    members.length + rest.length ≤ (writeMembers members rest).length := by
  match members with
  | [] => simp [writeMembers]
  | (key, j) :: members =>
    have hkey := length_le_writeText key (':' :: j.write (writeMembers members rest))
    have hj := length_le_write j (writeMembers members rest)
    have hmembers := length_le_writeMembers members rest
    simp only [writeMembers, List.length_cons] at hkey ⊢
    omega

end

/-! Reading values, given how they are read inside. -/

/-- What is written for the document is read back, where the text is no longer than the bound. -/
structure ReadsBack (value : List Char → Except Fault (Json × List Char)) (bound : Nat) (j : Json) :
    Prop where
  starts (rest : List Char) : ∃ c cs, j.write rest = c :: cs ∧ isSpace c = false ∧ c ≠ ']'
  reads {rest : List Char} (hrest : Closes rest) (hbound : (j.write rest).length ≤ bound) :
    ∃ j', value (j.write rest) = .ok (j', rest) ∧ j.Restates j'

theorem skipSpace_cons {c : Char} (hc : isSpace c = false) (cs : List Char) :
    skipSpace (c :: cs) = c :: cs := by
  rw [skipSpace, List.dropWhile_cons_of_neg (by simp [hc])]

theorem closes_nil : Closes [] := by
  intro c hc
  cases hc

theorem closes_cons {c : Char} (hc : c = ',' ∨ c = ']' ∨ c = '\x7d') (rest : List Char) :
    Closes (c :: rest) := by
  intro d hd
  cases hd
  rcases hc with rfl | rfl | rfl <;> decide

theorem closes_writeItems (js : List Json) (rest : List Char) :
    Closes (writeItems js (']' :: rest)) := by
  cases js with
  | nil => exact closes_cons (by decide) _
  | cons j js => exact closes_cons (by decide) _

theorem closes_writeMembers (members : List (String × Json)) (rest : List Char) :
    Closes (writeMembers members ('\x7d' :: rest)) := by
  cases members with
  | nil => exact closes_cons (by decide) _
  | cons member members => exact closes_cons (by decide) _

section Items

variable {value : List Char → Except Fault (Json × List Char)} {bound : Nat}

theorem nextItem_first {j : Json} (hj : ReadsBack value bound j) (rest : List Char) :
    nextItem true (j.write rest) = .ok (true, j.write rest) := by
  obtain ⟨c, cs, hcs, hspace, hc⟩ := hj.starts rest
  rw [hcs, nextItem, skipSpace_cons hspace]
  simp [hc]

theorem nextItem_comma {j : Json} (hj : ReadsBack value bound j) (rest : List Char) :
    nextItem false (',' :: j.write rest) = .ok (true, j.write rest) := by
  obtain ⟨c, cs, hcs, hspace, hc⟩ := hj.starts rest
  rw [hcs, nextItem, skipSpace_cons (by decide)]
  simp [skipSpace_cons hspace, hc]

theorem nextItem_close (first : Bool) (rest : List Char) :
    nextItem first (']' :: rest) = .ok (false, rest) := by
  rw [nextItem, skipSpace_cons (by decide)]
  rfl

theorem readItems_more {fuel : Nat} {first : Bool} {cs cs' cs'' rest : List Char} {j : Json}
    {js : List Json} (hnext : nextItem first cs = .ok (true, cs')) (hj : value cs' = .ok (j, cs''))
    (hjs : readItems value fuel false cs'' = .ok (js, rest)) :
    readItems value (fuel + 1) first cs = .ok (j :: js, rest) := by
  simp [readItems, hnext, hj, hjs, bind, Except.bind]

theorem readItems_writeItems {js : List Json} (hjs : ∀ j ∈ js, ReadsBack value bound j)
    (rest : List Char) {fuel : Nat} (hfuel : js.length < fuel)
    (hbound : (writeItems js (']' :: rest)).length ≤ bound) :
    ∃ js', readItems value fuel false (writeItems js (']' :: rest)) = .ok (js', rest) ∧
      List.Forall₂ Restates js js' := by
  induction js generalizing fuel with
  | nil =>
    obtain ⟨fuel, rfl⟩ := Nat.exists_eq_add_one_of_ne_zero (Nat.ne_zero_of_lt hfuel)
    refine ⟨[], ?_, .nil⟩
    simp [writeItems, readItems, nextItem_close, bind, Except.bind]
  | cons j js ih =>
    obtain ⟨fuel, rfl⟩ := Nat.exists_eq_add_one_of_ne_zero (Nat.ne_zero_of_lt hfuel)
    obtain ⟨hj, hjs⟩ := List.forall_mem_cons.1 hjs
    have hlen := length_le_write j (writeItems js (']' :: rest))
    rw [List.length_cons] at hfuel
    rw [writeItems, List.length_cons] at hbound
    obtain ⟨j', hj', hrestates⟩ := hj.reads (closes_writeItems js rest) (by omega)
    obtain ⟨js', hjs', hall⟩ := ih hjs (show js.length < fuel by omega) (by omega)
    exact ⟨j' :: js', readItems_more (nextItem_comma hj _) hj' hjs', .cons hrestates hall⟩

end Items

section Members

variable {value : List Char → Except Fault (Json × List Char)} {bound : Nat}

theorem nextMember_first (rest : List Char) : nextMember true ('"' :: rest) = .ok (true, rest) := by
  rw [nextMember, skipSpace_cons (by decide)]
  rfl

theorem nextMember_comma (rest : List Char) :
    nextMember false (',' :: '"' :: rest) = .ok (true, rest) := by
  rw [nextMember, skipSpace_cons (by decide)]
  simp only [skipSpace_cons (show isSpace '"' = false by decide)]
  rfl

theorem nextMember_close (first : Bool) (rest : List Char) :
    nextMember first ('\x7d' :: rest) = .ok (false, rest) := by
  rw [nextMember, skipSpace_cons (by decide)]
  rfl

theorem readColon_colon (rest : List Char) : readColon (':' :: rest) = .ok rest := by
  rw [readColon, skipSpace_cons (by decide)]
  rfl

theorem readMembers_more {fuel : Nat} {first : Bool} {members : List (String × Json)}
    {cs cs' cs'' : List Char} {name : String} {j : Json}
    (hnext : nextMember first cs =
      .ok (true, name.toList.flatMap escapeChar ++ '"' :: ':' :: cs'))
    (hname : name.toList.length ≤ fuel) (hj : value cs' = .ok (j, cs'')) :
    readMembers value (fuel + 1) first members cs =
      readMembers value fuel false (setMember members name j) cs'' := by
  have htext := readText_escaped name.toList (':' :: cs') (Nat.lt_succ_of_le hname)
  simp [readMembers, hnext, htext, readColon_colon, hj, bind, Except.bind]

theorem setMember_of_notMem {members : List (String × Json)} {name : String} (j : Json)
    (hname : name ∉ members.map Prod.fst) : setMember members name j = members ++ [(name, j)] := by
  induction members with
  | nil => rfl
  | cons member members ih =>
    obtain ⟨other, i⟩ := member
    rw [List.map_cons, List.mem_cons, not_or] at hname
    rw [setMember, if_neg (Ne.symm hname.1), ih hname.2, List.cons_append]

theorem readMembers_writeMembers {members : List (String × Json)}
    (hmembers : ∀ e ∈ members, ReadsBack value bound e.2) {before : List (String × Json)}
    (hnames : ((before ++ members).map Prod.fst).Nodup) (rest : List Char) {fuel : Nat}
    (hfuel : (writeMembers members ('\x7d' :: rest)).length ≤ fuel)
    (hbound : (writeMembers members ('\x7d' :: rest)).length ≤ bound) :
    ∃ members', readMembers value fuel false before (writeMembers members ('\x7d' :: rest)) =
        .ok (before ++ members', rest) ∧
      members'.map Prod.fst = members.map Prod.fst ∧
      List.Forall₂ Restates (members.map Prod.snd) (members'.map Prod.snd) := by
  induction members generalizing before fuel with
  | nil =>
    obtain ⟨fuel, rfl⟩ : ∃ n, fuel = n + 1 := by
      rw [writeMembers, List.length_cons] at hfuel
      exact ⟨fuel - 1, by omega⟩
    refine ⟨[], ?_, rfl, .nil⟩
    simp [writeMembers, readMembers, nextMember_close, bind, Except.bind]
  | cons member members ih =>
    obtain ⟨name, j⟩ := member
    obtain ⟨hj : ReadsBack value bound j, hmembers⟩ := List.forall_mem_cons.1 hmembers
    have hname := length_le_writeText name (':' :: j.write (writeMembers members ('\x7d' :: rest)))
    have hlen := length_le_write j (writeMembers members ('\x7d' :: rest))
    rw [writeMembers, List.length_cons] at hfuel hbound
    rw [List.length_cons] at hname
    obtain ⟨fuel, rfl⟩ : ∃ n, fuel = n + 1 := ⟨fuel - 1, by omega⟩
    obtain ⟨j', hj', hrestates⟩ := hj.reads (closes_writeMembers members rest) (by omega)
    have hnew : name ∉ before.map Prod.fst := by
      rw [List.map_append, List.map_cons] at hnames
      exact fun hmem => (List.nodup_append.1 hnames).2.2 name hmem name List.mem_cons_self rfl
    have hnames' : ((before ++ [(name, j')] ++ members).map Prod.fst).Nodup := by simpa using hnames
    obtain ⟨members', hmembers', hfst, hsnd⟩ :=
      ih hmembers hnames' (show (writeMembers members _).length ≤ fuel by omega) (by omega)
    refine ⟨(name, j') :: members', ?_, by rw [List.map_cons, List.map_cons, hfst],
      .cons hrestates hsnd⟩
    rw [writeMembers, writeText, readMembers_more (nextMember_comma _) (by omega) hj',
      setMember_of_notMem j' hnew, hmembers', List.append_assoc, List.singleton_append]

end Members

/-! Reading documents. -/

theorem readsBack_word {fuel room : Nat} (j : Json) (c : Char) (word : List Char)
    (hwrite : ∀ rest, j.write rest = c :: (word ++ rest)) (hspace : isSpace c = false)
    (hc : c ≠ ']')
    (hread : ∀ rest, readValue fuel room (c :: (word ++ rest)) = .ok (j, rest)) :
    ReadsBack (readValue fuel room) fuel j := by
  refine ⟨fun rest => ⟨c, _, hwrite rest, hspace, hc⟩, fun {rest} _ _ => ⟨j, ?_, .refl j⟩⟩
  rw [hwrite, hread]

theorem readsBack_null (fuel room : Nat) : ReadsBack (readValue fuel room) fuel .null := by
  refine readsBack_word .null 'n' ['u', 'l', 'l'] (fun _ => rfl) (by decide) (by decide)
    fun rest => ?_
  rw [readValue, skipSpace_cons (by decide)]
  rfl

theorem readsBack_bool (b : Bool) (fuel room : Nat) :
    ReadsBack (readValue fuel room) fuel (.bool b) := by
  cases b with
  | false =>
    refine readsBack_word _ 'f' ['a', 'l', 's', 'e'] (fun _ => rfl) (by decide) (by decide)
      fun rest => ?_
    rw [readValue, skipSpace_cons (by decide)]
    rfl
  | true =>
    refine readsBack_word _ 't' ['r', 'u', 'e'] (fun _ => rfl) (by decide) (by decide)
      fun rest => ?_
    rw [readValue, skipSpace_cons (by decide)]
    rfl

theorem ne_of_isDigit {c d : Char} (hc : c.isDigit = true) (hd : d.isDigit = false) : c ≠ d := by
  rintro rfl
  rw [hc] at hd
  cases hd

theorem isSpace_of_isDigit {c : Char} (hc : c.isDigit = true) : isSpace c = false := by
  simp [isSpace, ne_of_isDigit hc]

theorem readValue_digit {c : Char} (hc : c.isDigit = true) (fuel room : Nat) (cs : List Char) :
    readValue fuel room (c :: cs) = readNumber false (c :: cs) := by
  rw [readValue, skipSpace_cons (isSpace_of_isDigit hc)]
  simp [ne_of_isDigit hc, hc]

theorem readValue_minus (fuel room : Nat) (cs : List Char) :
    readValue fuel room ('-' :: cs) = readNumber true cs := by
  rw [readValue, skipSpace_cons (by decide)]
  rfl

/-- A safe number reads back as an equal one. -/
theorem readsBack_number {x : Number} {n : Int} (hx : x.IsSafe n) (fuel room : Nat) :
    ReadsBack (readValue fuel room) fuel (.number x) := by
  obtain ⟨c, cs, hcs⟩ := List.exists_cons_of_ne_nil (Nat.toDigits_ne_nil (n := n.natAbs) (b := 10))
  have hc : c.isDigit = true := by
    refine Nat.isDigit_of_mem_toDigits (b := 10) (n := n.natAbs) (by decide) (by decide) ?_
    rw [hcs]
    exact List.mem_cons_self
  have hrestates : (number x).Restates (signedNumber (n < 0) (Float.ofNat n.natAbs)) :=
    restates_number hx.beq
  have hchars := numberChars_of_isSafe hx
  by_cases hn : n < 0
  · have hwrite : ∀ rest, (number x).write rest = '-' :: (Nat.toDigits 10 n.natAbs ++ rest) := by
      intro rest
      rw [write, hchars, Number.signed, if_pos (decide_eq_true hn), List.cons_append]
    refine ⟨fun rest => ⟨'-', _, hwrite rest, by decide, by decide⟩, fun {rest} hrest _ => ?_⟩
    refine ⟨_, ?_, hrestates⟩
    rw [hwrite, readValue_minus, readNumber_toDigits hx.le true hrest, decide_eq_true hn]
  · have hwrite : ∀ rest, (number x).write rest = Nat.toDigits 10 n.natAbs ++ rest := by
      intro rest
      rw [write, hchars, Number.signed, if_neg (by simpa using hn)]
    refine ⟨fun rest => ⟨c, cs ++ rest, ?_, isSpace_of_isDigit hc, ne_of_isDigit hc (by decide)⟩,
      fun {rest} hrest _ => ⟨_, ?_, hrestates⟩⟩
    · rw [hwrite, hcs, List.cons_append]
    · rw [hwrite, hcs, List.cons_append, readValue_digit hc, ← List.cons_append, ← hcs,
        readNumber_toDigits hx.le false hrest, decide_eq_false hn]

theorem readsBack_text (s : String) (fuel room : Nat) :
    ReadsBack (readValue fuel room) fuel (.text s) := by
  refine ⟨fun rest => ⟨'"', _, rfl, by decide, by decide⟩, fun {rest} hrest hbound => ?_⟩
  have hlen := length_le_writeText s rest
  rw [write] at hbound ⊢
  refine ⟨.text s, ?_, .refl _⟩
  rw [writeText, readValue, skipSpace_cons (by decide)]
  simp [readText_escaped s.toList rest (show _ < fuel by omega), bind, Except.bind]

theorem readsBack_array {fuel room : Nat} {js : List Json}
    (hjs : ∀ j ∈ js, ReadsBack (readValue fuel room) fuel j) :
    ReadsBack (readValue fuel (room + 1)) fuel (.array js) := by
  have hread : ∀ {cs rest : List Char} {js' : List Json},
      readItems (readValue fuel room) fuel true cs = .ok (js', rest) →
      readValue fuel (room + 1) ('[' :: cs) = .ok (.array js', rest) := by
    intro cs rest js' hitems
    rw [readValue, skipSpace_cons (by decide)]
    simp [hitems, bind, Except.bind]
  cases js with
  | nil =>
    refine ⟨fun rest => ⟨'[', _, rfl, by decide, by decide⟩, fun {rest} _ hbound => ?_⟩
    rw [write, List.length_cons] at hbound
    obtain ⟨fuel, rfl⟩ : ∃ n, fuel = n + 1 := ⟨fuel - 1, by omega⟩
    refine ⟨.array [], hread ?_, .refl _⟩
    simp [readItems, nextItem_close, bind, Except.bind]
  | cons j js =>
    obtain ⟨hj, hjs⟩ := List.forall_mem_cons.1 hjs
    refine ⟨fun rest => ⟨'[', _, rfl, by decide, by decide⟩, fun {rest} _ hbound => ?_⟩
    have hlen := length_le_write j (writeItems js (']' :: rest))
    have hlen' := length_le_writeItems js (']' :: rest)
    rw [write, List.length_cons] at hbound
    rw [List.length_cons] at hlen'
    obtain ⟨n, hn⟩ : ∃ n, fuel = n + 1 := ⟨fuel - 1, by omega⟩
    obtain ⟨j', hj', hrestates⟩ := hj.reads (closes_writeItems js rest) (by omega)
    obtain ⟨js', hjs', hall⟩ :=
      readItems_writeItems hjs rest (show js.length < n by omega) (by omega)
    have hitems := readItems_more (nextItem_first hj _) hj' hjs'
    rw [← hn] at hitems
    exact ⟨.array (j' :: js'), hread hitems, restates_array (.cons hrestates hall)⟩

theorem readsBack_object {fuel room : Nat} {members : List (String × Json)}
    (hnames : (members.map Prod.fst).Nodup)
    (hmembers : ∀ e ∈ members, ReadsBack (readValue fuel room) fuel e.2) :
    ReadsBack (readValue fuel (room + 1)) fuel (.object members) := by
  have hread : ∀ {cs rest : List Char} {members' : List (String × Json)},
      readMembers (readValue fuel room) fuel true [] cs = .ok (members', rest) →
      readValue fuel (room + 1) ('\x7b' :: cs) = .ok (.object members', rest) := by
    intro cs rest members' hitems
    rw [readValue, skipSpace_cons (by decide)]
    simp [hitems, bind, Except.bind]
  cases members with
  | nil =>
    refine ⟨fun rest => ⟨'\x7b', _, rfl, by decide, by decide⟩, fun {rest} _ hbound => ?_⟩
    rw [write, List.length_cons] at hbound
    obtain ⟨fuel, rfl⟩ : ∃ n, fuel = n + 1 := ⟨fuel - 1, by omega⟩
    refine ⟨.object [], hread ?_, .refl _⟩
    simp [readMembers, nextMember_close, bind, Except.bind]
  | cons member members =>
    obtain ⟨name, j⟩ := member
    obtain ⟨hj : ReadsBack (readValue fuel room) fuel j, hmembers⟩ :=
      List.forall_mem_cons.1 hmembers
    refine ⟨fun rest => ⟨'\x7b', _, rfl, by decide, by decide⟩, fun {rest} _ hbound => ?_⟩
    have hname := length_le_writeText name (':' :: j.write (writeMembers members ('\x7d' :: rest)))
    have hlen := length_le_write j (writeMembers members ('\x7d' :: rest))
    rw [write, List.length_cons] at hbound
    rw [List.length_cons] at hname
    obtain ⟨n, hn⟩ : ∃ n, fuel = n + 1 := ⟨fuel - 1, by omega⟩
    obtain ⟨j', hj', hrestates⟩ := hj.reads (closes_writeMembers members rest) (by omega)
    have hnames' : (([(name, j')] ++ members).map Prod.fst).Nodup := by simpa using hnames
    obtain ⟨members', hmembers', hfst, hsnd⟩ := readMembers_writeMembers hmembers hnames' rest
      (show _ ≤ n by omega) (by omega)
    have hitems : readMembers (readValue fuel room) (n + 1) true [] (writeText name _) = _ :=
      readMembers_more (nextMember_first _) (by omega) hj'
    rw [← hn, setMember_of_notMem j' List.not_mem_nil, List.nil_append, hmembers'] at hitems
    refine ⟨_, hread hitems, restates_object ?_ (.cons hrestates hsnd)⟩
    rw [List.singleton_append, List.map_cons, List.map_cons, hfst]

/-- A document that fits is read back, with what it records. -/
theorem Fits.readsBack {room : Nat} {j : Json} (hj : Fits room j) (fuel : Nat) :
    ReadsBack (readValue fuel room) fuel j := by
  induction hj with
  | null room => exact readsBack_null fuel room
  | bool room b => exact readsBack_bool b fuel room
  | number room hx => exact readsBack_number hx fuel room
  | text room s => exact readsBack_text s fuel room
  | array _ ih => exact readsBack_array ih
  | object hnames _ ih => exact readsBack_object hnames ih

theorem Fits.read_write {j : Json} (hj : Fits maxDepth j) :
    ∃ j', read (j.write []) = .ok j' ∧ j.Restates j' := by
  obtain ⟨j', hj', hrestates⟩ := (hj.readsBack (j.write []).length).reads closes_nil (Nat.le_refl _)
  refine ⟨j', ?_, hrestates⟩
  simp [read, hj', bind, Except.bind, skipSpace]

end Json

end Lisplet
