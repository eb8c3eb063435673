import Lisplet.Host.Global
import Lisplet.Proofs.Gathering
import Lisplet.Proofs.Lexemes
import Mathlib

/-!
The readers of numeric texts: the scanner of lexemes, the conversion of a whole text and the search
for a number at its start. A literal has neither a blank nor a letter of an infinity's name in it,
so where one reader finds it to be the whole text the others do too, and the search, which tries the
longest start first, finds nothing shorter before it.
-/

namespace Lisplet

namespace Lexeme

/-- Only a literal is scanned as a number. -/
theorem readChars?_of_scan {c : Char} {cs : List Char} {x : Number}
    (h : (scan c cs).outcome = .ok (.atom (.number x))) :
    Number.readChars? (scan c cs).lexeme = some x := by
  cases c, cs using scan_cases with
  | bracket c t cs hb =>
    rw [scan_bracket hb] at h
    cases h
    unfold bracket? at hb
    split at hb <;> cases hb
  | quoting cs => cases h
  | quote d cs hd =>
    rw [scan_quote hd] at h
    cases h
  | quoteAtEnd => cases h
  | text cs =>
    rw [scan_text] at h
    rcases ho : (scanText cs).outcome with e | text <;> simp only [ho, Except.map] at h <;> cases h
  | other c cs hb hq ht =>
    rw [scan_other hb hq ht] at h ⊢
    split at h
    · rename_i hnumber
      rw [if_pos hnumber]
      obtain ⟨-, y, hread, hy⟩ := readNumeral_eq_ok.1 h
      cases hy
      exact hread
    · simp only [scanWord, readWord, ofWord] at h
      split_ifs at h <;> cases h

end Lexeme

namespace Text

theorem isBlank_of_isNumeric {c : Char} (h : Number.isNumeric c = true) : isBlank c = false := by
  have hc := Lexeme.isTerminator_of_isNumeric h
  simp only [Lexeme.isTerminator, Bool.or_eq_false_iff] at hc
  simp [hc]

/-- Trimming takes nothing but blanks off the end. -/
theorem exists_trimRight (cs : List Char) :
    ∃ blanks, cs = trimRight cs ++ blanks ∧ ∀ c ∈ blanks, isBlank c = true :=
  ⟨cs.rtakeWhile isBlank, List.rdropWhile_append_rtakeWhile.symm,
    fun _ hc => List.mem_rtakeWhile_imp hc⟩

theorem trimLeft_eq_self {cs : List Char} (h : ∀ c ∈ cs, isBlank c = false) : trimLeft cs = cs := by
  cases cs with
  | nil => rfl
  | cons c cs => simp [trimLeft, h c]

theorem trimRight_eq_self {cs : List Char} (h : ∀ c ∈ cs, isBlank c = false) :
    trimRight cs = cs := by
  have hreverse : trimLeft cs.reverse = cs.reverse := trimLeft_eq_self (by simpa using h)
  rw [trimLeft] at hreverse
  rw [trimRight, hreverse, List.reverse_reverse]

end Text

namespace Number

theorem isNumeric_of_readChars? {cs : List Char} {x : Number} (h : readChars? cs = some x) :
    ∀ c ∈ cs, isNumeric c = true := by
  have hall := Lexeme.splitNumeral_within.all cs
  rwa [Lexeme.splitNumeral_of_readChars? h] at hall

/-- The text starts with a name of an infinite number. -/
def StartsInfinite (cs : List Char) : Prop :=
  "Infinity".toList <+: cs ∨ "+Infinity".toList <+: cs ∨ "-Infinity".toList <+: cs

/-- The longest start of a text that is a literal, and its value. -/
structure LongestLiteral (cs literal : List Char) (x : Number) : Prop where
  isPrefix : literal <+: cs
  numeric : ∀ c ∈ literal, isNumeric c = true
  reads : readChars? literal = some x
  longest : ∀ other, other <+: cs → (∀ c ∈ other, isNumeric c = true) →
    literal.length < other.length → readChars? other = none

/-- The number that a text without leading blanks starts with. -/
inductive StartsWith (cs : List Char) : Number → Prop
  | infinity (h : "Infinity".toList <+: cs ∨ "+Infinity".toList <+: cs) : StartsWith cs infinity
  | negInfinity (h : "-Infinity".toList <+: cs) : StartsWith cs negInfinity
  | literal {literal : List Char} {x : Number} (hfinite : ¬StartsInfinite cs)
      (h : LongestLiteral cs literal x) : StartsWith cs x
  | nothing (hfinite : ¬StartsInfinite cs)
      (h : ∀ literal, literal <+: cs → (∀ c ∈ literal, isNumeric c = true) →
        readChars? literal = none) : StartsWith cs nan

variable {cs literal other blanks : List Char} {x y : Number}

theorem LongestLiteral.length_le (hx : LongestLiteral cs literal x)
    (hy : LongestLiteral cs other y) : other.length ≤ literal.length := by
  by_contra hlt
  cases (hx.longest other hy.isPrefix hy.numeric (Nat.lt_of_not_le hlt)).symm.trans hy.reads

theorem LongestLiteral.unique (hx : LongestLiteral cs literal x)
    (hy : LongestLiteral cs other y) : x = y := by
  have hsame : literal = other :=
    (List.prefix_of_prefix_length_le hx.isPrefix hy.isPrefix (hy.length_le hx)).eq_of_length_le
      (hx.length_le hy)
  exact Option.some.inj (hx.reads.symm.trans (hsame ▸ hy.reads))

theorem not_negInfinity_of_infinity (h : "Infinity".toList <+: cs ∨ "+Infinity".toList <+: cs) :
    ¬"-Infinity".toList <+: cs := by
  rcases h with ⟨_, rfl⟩ | ⟨_, rfl⟩ <;> simp

/-- A text starts with one number only. -/
theorem StartsWith.unique (hx : StartsWith cs x) (hy : StartsWith cs y) : x = y := by
  cases hx with
  | infinity h =>
    have hinfinite : StartsInfinite cs := or_assoc.1 (.inl h)
    cases hy with
    | infinity => rfl
    | negInfinity h' => exact absurd h' (not_negInfinity_of_infinity h)
    | literal hfinite => exact absurd hinfinite hfinite
    | nothing hfinite => exact absurd hinfinite hfinite
  | negInfinity h =>
    have hinfinite : StartsInfinite cs := .inr (.inr h)
    cases hy with
    | infinity h' => exact absurd h (not_negInfinity_of_infinity h')
    | negInfinity => rfl
    | literal hfinite => exact absurd hinfinite hfinite
    | nothing hfinite => exact absurd hinfinite hfinite
  | literal hfinite h =>
    cases hy with
    | infinity h' => exact absurd (or_assoc.1 (.inl h')) hfinite
    | negInfinity h' => exact absurd (.inr (.inr h')) hfinite
    | literal _ h' => exact h.unique h'
    | nothing _ h' => cases (h' _ h.isPrefix h.numeric).symm.trans h.reads
  | nothing hfinite h =>
    cases hy with
    | infinity h' => exact absurd (or_assoc.1 (.inl h')) hfinite
    | negInfinity h' => exact absurd (.inr (.inr h')) hfinite
    | literal _ h' => cases (h _ h'.isPrefix h'.numeric).symm.trans h'.reads
    | nothing => rfl

/-! The search from the longest start down. -/

theorem longestLiteral?_cases (cs : List Char) (n : Nat) :
    (longestLiteral? cs n = none ∧ ∀ m ≤ n, readChars? (cs.take m) = none) ∨
      ∃ x, longestLiteral? cs n = some x ∧ ∃ k ≤ n, readChars? (cs.take k) = some x ∧
        ∀ m ≤ n, k < m → readChars? (cs.take m) = none := by
  induction n with
  | zero => exact .inl ⟨rfl, fun m hm => Nat.le_zero.1 hm ▸ rfl⟩
  | succ n ih =>
    rw [longestLiteral?]
    cases hread : readChars? (cs.take (n + 1)) with
    | some x => exact .inr ⟨x, rfl, n + 1, le_rfl, hread, fun m hm hlt => absurd hm hlt.not_ge⟩
    | none =>
      rw [Option.orElse_none]
      rcases ih with ⟨hsearch, hnone⟩ | ⟨x, hsearch, k, hk, hsome, hnone⟩
      · refine .inl ⟨hsearch, fun m hm => ?_⟩
        rcases Nat.lt_or_eq_of_le hm with hm | rfl
        · exact hnone m (Nat.le_of_lt_succ hm)
        · exact hread
      · refine .inr ⟨x, hsearch, k, Nat.le_succ_of_le hk, hsome, fun m hm hlt => ?_⟩
        rcases Nat.lt_or_eq_of_le hm with hm | rfl
        · exact hnone m (Nat.le_of_lt_succ hm) hlt
        · exact hread

/-- A start made of the characters of literals is a start of their first run. -/
theorem eq_take_run (h : other <+: cs) (hnumeric : ∀ c ∈ other, isNumeric c = true) :
    other = (cs.takeWhile isNumeric).take other.length ∧
      other.length ≤ (cs.takeWhile isNumeric).length := by
  obtain ⟨after, rfl⟩ := h
  rw [List.takeWhile_append_of_pos hnumeric]
  simp

theorem startsWith_ofTextStart (s : String) :
    StartsWith (Text.trimLeft s.toList) (ofTextStart s) := by
  unfold ofTextStart
  generalize Text.trimLeft s.toList = cs
  simp only [Bool.or_eq_true, List.isPrefixOf_iff_prefix]
  split_ifs with hpositive hnegative
  · exact .infinity hpositive
  · exact .negInfinity hnegative
  · have hfinite : ¬StartsInfinite cs := by
      rw [StartsInfinite, ← or_assoc]
      exact not_or.2 ⟨hpositive, hnegative⟩
    rcases longestLiteral?_cases (cs.takeWhile isNumeric) (cs.takeWhile isNumeric).length with
      ⟨hsearch, hnone⟩ | ⟨x, hsearch, k, hk, hread, hlonger⟩ <;> rw [hsearch]
    · refine .nothing hfinite fun literal hprefix hnumeric => ?_
      obtain ⟨htake, hle⟩ := eq_take_run hprefix hnumeric
      rw [htake]
      exact hnone _ hle
    · refine .literal hfinite ⟨(List.take_prefix k _).trans (List.takeWhile_prefix _),
        isNumeric_of_readChars? hread, hread, fun other hprefix hnumeric hlt => ?_⟩
      obtain ⟨htake, hle⟩ := eq_take_run hprefix hnumeric
      rw [List.length_take, min_eq_left hk] at hlt
      rw [htake]
      exact hlonger _ hle hlt

/-! A literal with blanks behind it is read as a whole. -/

theorem isNumeric_of_isBlank {c : Char} (h : Text.isBlank c = true) : isNumeric c = false := by
  rw [Bool.eq_false_iff]
  intro hc
  cases h.symm.trans (Text.isBlank_of_isNumeric hc)

theorem letter_notMem_of_readChars? (h : readChars? literal = some x) : 'I' ∉ literal := by
  intro hletter
  cases isNumeric_of_readChars? h 'I' hletter

theorem startsWith_literal (hread : readChars? literal = some x)
    (hblanks : ∀ c ∈ blanks, Text.isBlank c = true) : StartsWith (literal ++ blanks) x := by
  have hnumeric := isNumeric_of_readChars? hread
  have hletter : 'I' ∉ literal ++ blanks := by
    rw [List.mem_append]
    rintro (h | h)
    · exact letter_notMem_of_readChars? hread h
    · exact absurd (hblanks 'I' h) (by decide)
  have hrun : (literal ++ blanks).takeWhile isNumeric = literal :=
    (span_of_all hnumeric fun c hc =>
      isNumeric_of_isBlank (hblanks c (List.mem_of_mem_head? hc))).1
  refine .literal ?_ ⟨List.prefix_append _ _, hnumeric, hread, fun other hprefix hall hlt => ?_⟩
  · rintro (h | h | h) <;> exact hletter (h.subset (by decide))
  · have hle := (eq_take_run hprefix hall).2
    rw [hrun] at hle
    exact absurd hle hlt.not_ge

theorem infinityWord?_of_read? {s : String} (h : read? s = some x) : infinityWord? s = none := by
  have hletter := letter_notMem_of_readChars? h
  unfold infinityWord?
  split_ifs with hpositive hnegative
  · rcases hpositive with rfl | rfl <;> exact absurd (by decide) hletter
  · subst hnegative
    exact absurd (by decide) hletter
  · rfl

/-- Where a text that is not blank has a number for its value, it starts with that number. -/
theorem startsWith_ofText {s : String} (hblank : ∃ c ∈ s.toList, Text.isBlank c = false)
    (hnan : (ofText s).isNaN = false) : StartsWith (Text.trimLeft s.toList) (ofText s) := by
  have hne : Text.trim s ≠ "" := by
    intro htrim
    obtain ⟨c, hc, hfalse⟩ := hblank
    cases hfalse.symm.trans (Text.isBlank_of_trim htrim c hc)
  obtain ⟨blanks, hleft, hblanks⟩ := Text.exists_trimRight (Text.trimLeft s.toList)
  have hstart : (Text.trim s).toList ++ blanks = Text.trimLeft s.toList := by
    rw [Text.trim, String.toList_ofList, ← hleft]
  simp only [ofText, if_neg hne] at hnan ⊢
  rw [← hstart]
  generalize Text.trim s = word at hnan ⊢
  unfold infinityWord? at hnan ⊢
  split_ifs at hnan ⊢ with hpositive hnegative
  · refine .infinity ?_
    rcases hpositive with rfl | rfl
    · exact .inl (List.prefix_append _ _)
    · exact .inr (List.prefix_append _ _)
  · subst hnegative
    exact .negInfinity (List.prefix_append _ _)
  · cases hread : read? word with
    | none =>
      rw [hread] at hnan
      cases hnan
    | some x => exact startsWith_literal hread hblanks

/-- A literal is the value of its text. -/
theorem ofText_of_read? {s : String} (h : read? s = some x) : ofText s = x := by
  have hblank : ∀ c ∈ s.toList, Text.isBlank c = false := fun c hc =>
    Text.isBlank_of_isNumeric (isNumeric_of_readChars? h c hc)
  have htrim : Text.trim s = s := by
    rw [Text.trim, Text.trimLeft_eq_self hblank, Text.trimRight_eq_self hblank,
      String.ofList_toList]
  have hne : s ≠ "" := by
    rintro rfl
    cases h
  simp only [ofText, htrim, if_neg hne, infinityWord?_of_read? h, h]
  rfl

/-- The number that is found at the start of a text is its value if all of it is one lexeme that is
scanned as a number, and also if it is not blank and has a value at all. For any other text it is
still the value of the longest literal behind the leading blanks, unless a name of an infinite
number stands there. -/
theorem numeric_readers_agree (access : Access) (hallows : access.allows "Number" = true)
    (t : Session) (s : String) :
    ∃ x, Host.global access ["Number", "parseFloat"] [.text s] t = .ok (.number x) t ∧
      (∀ c cs n, s.toList = c :: cs →
        Lexeme.scan c cs = ⟨.ok (.atom (.number n)), s.toList, []⟩ → ofText s = n ∧ x = n) ∧
      ((∃ c ∈ s.toList, Text.isBlank c = false) → (ofText s).isNaN = false → x = ofText s) ∧
      ∃ blanks cs, s.toList = blanks ++ cs ∧ (∀ c ∈ blanks, Text.isBlank c = true) ∧
        (∀ c ∈ cs.head?, Text.isBlank c = false) ∧ StartsWith cs x := by
  have hstarts := startsWith_ofTextStart s
  refine ⟨ofTextStart s, ?_, fun c cs n hcs hscan => ?_, fun hblank hnan => ?_,
    s.toList.takeWhile Text.isBlank, Text.trimLeft s.toList, ?_, ?_, ?_, hstarts⟩
  · simp only [Host.global, hallows, if_true]
    rfl
  · have hread : readChars? s.toList = some n := by
      have hscanned := Lexeme.readChars?_of_scan (congrArg Lexeme.Scan.outcome hscan)
      rwa [hscan] at hscanned
    refine ⟨ofText_of_read? hread, ?_⟩
    have hleft : Text.trimLeft s.toList = s.toList := Text.trimLeft_eq_self fun c hc =>
      Text.isBlank_of_isNumeric (isNumeric_of_readChars? hread c hc)
    rw [hleft, ← List.append_nil s.toList] at hstarts
    exact hstarts.unique (startsWith_literal hread (by simp))
  · exact hstarts.unique (startsWith_ofText hblank hnan)
  · exact List.takeWhile_append_dropWhile.symm
  · exact fun c hc => List.mem_takeWhile_imp hc
  · intro c hc
    have hhead := List.head?_dropWhile_not Text.isBlank s.toList
    rw [Text.trimLeft, Option.mem_def] at hc
    rw [hc] at hhead
    exact hhead

theorem numeric_readers_agree_signed :
    Lexeme.scan '+' "1.e2".toList = ⟨.ok (.atom (.number 100)), "+1.e2".toList, []⟩ ∧
      ofText "+1.e2" = 100 ∧
      Host.global .all ["Number", "parseFloat"] [.text "+1.e2"] .initial =
        .ok (.number 100) .initial ∧
      Host.global .all ["Number", "parseFloat"] [.text " -Infinity\t"] .initial =
        .ok (.number (ofText " -Infinity\t")) .initial := by
  have hscan : Lexeme.scan '+' "1.e2".toList =
      ⟨.ok (.atom (.number 100)), "+1.e2".toList, []⟩ := rfl
  obtain ⟨x, hx, hlexeme, -⟩ := numeric_readers_agree .all rfl .initial "+1.e2"
  obtain ⟨y, hy, -, hvalue, -⟩ := numeric_readers_agree .all rfl .initial " -Infinity\t"
  obtain ⟨htext, rfl⟩ := hlexeme '+' "1.e2".toList 100 rfl hscan
  refine ⟨hscan, htext, hx, ?_⟩
  rw [← hvalue ⟨'-', by decide, by decide⟩ (by decide)]
  exact hy

end Number

end Lisplet
