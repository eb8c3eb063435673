import Lisplet.Proofs.Lexing
import Lisplet.Proofs.Numerals

/-!
Texts that read as one token. A symbol or a number ends where a terminator follows, so what stands
behind a spelling starts with one or is empty. Every atom is spelled by its own text, and every name
that a text can bring in is spelled by itself.
-/

namespace Lisplet

namespace Lexeme

/-- What may follow any token without running into it. -/
def Stops (rest : List Char) : Prop := ∀ c ∈ rest.head?, isTerminator c = true

theorem stops_nil : Stops [] := nofun

theorem stops_cons {c : Char} (hc : isTerminator c = true) (rest : List Char) :
    Stops (c :: rest) := by
  rintro _ ⟨⟩
  exact hc

theorem isTerminator_of_isDigit {c : Char} (h : c.isDigit = true) : isTerminator c = false := by
  have hc : 48 ≤ c.toNat ∧ c.toNat ≤ 57 := by
    simp only [Char.isDigit, Bool.and_eq_true, decide_eq_true_eq] at h
    exact ⟨UInt32.le_iff_toNat_le.1 h.1, UInt32.le_iff_toNat_le.1 h.2⟩
  have hne : ∀ d : Char, d.toNat < 48 ∨ 57 < d.toNat → c ≠ d := by
    rintro d hd rfl
    omega
  have hblank : Text.isBlank c = false := by
    simp [Text.isBlank, Text.blankRanges, Text.inRanges]
    omega
  simp [isTerminator, isDelimiter, hblank, hne]

theorem isTerminator_of_bracket? {c : Char} {t : Token} (h : bracket? c = some t) :
    isTerminator c = true := by
  unfold bracket? at h
  split at h <;> first | decide | cases h

theorem bracket?_of_isTerminator {c : Char} (h : isTerminator c = false) : bracket? c = none := by
  unfold bracket?
  split <;> first | rfl | exact absurd h (by decide)

theorem scan_of_isTerminator {c : Char} (h : isTerminator c = false) (cs : List Char) :
    scan c cs = if startsNumber (c :: cs) then scanNumber (c :: cs) else scanWord (c :: cs) := by
  have hq : c ≠ '\'' := by
    rintro rfl
    exact absurd h (by decide)
  have ht : c ≠ '"' := by
    rintro rfl
    exact absurd h (by decide)
  exact scan_other (bracket?_of_isTerminator h) hq ht cs

theorem startsGap_of_isTerminator {c : Char} (h : isTerminator c = false) :
    startsGap c = false := by
  simp_all [isTerminator, startsGap]

/-- No character of a class that tokens are made of comes next. -/
theorem Stops.head {rest : List Char} (hrest : Stops rest) {q : Char → Bool}
    (hq : ∀ c, q c = true → isTerminator c = false) : ∀ c ∈ rest.head?, q c = false := by
  intro c hc
  cases hqc : q c with
  | false => rfl
  | true =>
    have hstop := hrest c hc
    rw [hq c hqc] at hstop
    cases hstop

end Lexeme

/-- In front of a terminator or the end the text reads as the token. -/
def Token.SpelledBy (t : Token) (cs : List Char) : Prop :=
  ∀ p rest, Lexeme.Stops rest →
    Tokens.ofText p (cs ++ rest) = .next t p (.ofText (p.past cs) rest)

namespace Lexeme

/-! Text in quotes. -/

theorem scanText_escapeChar (c : Char) (cs : List Char) :
    scanText (Text.escapeChar c ++ cs) = (scanText cs).extend (Text.escapeChar c) (c :: ·) := by
  rcases Text.escapeChar_eq c with hc | ⟨l, hc, hl⟩
  · have hq : c ≠ '"' := by
      rintro rfl
      cases hc
    have hb : c ≠ '\\' := by
      rintro rfl
      cases hc
    rw [hc, List.singleton_append, scanText_plain hq hb]
  · rw [hc]
    change scanText ('\\' :: l :: cs) = _
    rw [scanText, hl]

theorem scanText_escape (cs rest : List Char) :
    scanText (cs.flatMap Text.escapeChar ++ '"' :: rest) =
      ⟨.ok cs, cs.flatMap Text.escapeChar ++ ['"'], rest⟩ := by
  induction cs with
  | nil => rfl
  | cons c cs ih =>
    rw [List.flatMap_cons, List.append_assoc, scanText_escapeChar, ih]
    simp [Scan.extend, Except.map]

theorem spelledBy_quote (s : String) : Token.SpelledBy (.atom (.text s)) (Text.quote s).toList := by
  intro p rest _
  have hchars : (Text.quote s).toList = '"' :: (s.toList.flatMap Text.escapeChar ++ ['"']) := by
    simp [Text.quote, Text.escape]
  have hscan : scan '"' (s.toList.flatMap Text.escapeChar ++ '"' :: rest) =
      ⟨.ok (.atom (.text s)), (Text.quote s).toList, rest⟩ := by
    rw [scan_text, scanText_escape, hchars]
    simp [Except.map]
  have htext : (Text.quote s).toList ++ rest =
      '"' :: (s.toList.flatMap Text.escapeChar ++ '"' :: rest) := by
    simp [hchars]
  rw [htext]
  exact Tokens.ofText_of_scan (by decide) hscan p

/-! Words. -/

theorem splitWhile_of_all {p : Char → Bool} {ds rest : List Char} (hds : ∀ c ∈ ds, p c = true)
    (hrest : ∀ c ∈ rest.head?, p c = false) : splitWhile p (ds ++ rest) = (ds, rest) := by
  obtain ⟨htake, hdrop⟩ := Number.span_of_all hds hrest
  simp only [splitWhile, htake, hdrop]

theorem stops_splitWhile (cs : List Char) : Stops (splitWhile (!isTerminator ·) cs).2 := by
  intro c hc
  have hhead := List.head?_dropWhile_not (!isTerminator ·) cs
  simp only [splitWhile] at hc
  rw [hc] at hhead
  simpa using hhead

theorem startsNumber_of_stops {cs rest : List Char} (hrest : Stops rest) (hne : cs ≠ []) :
    startsNumber (cs ++ rest) = startsNumber cs := by
  rcases cs with _ | ⟨c, _ | ⟨d, cs⟩⟩
  · exact absurd rfl hne
  · have hdigit : rest.head?.any Char.isDigit = false := by
      cases h : rest.head? with
      | none => rfl
      | some d => exact hrest.head (fun _ => isTerminator_of_isDigit) d h
    change (c.isDigit || isSign c && rest.head?.any Char.isDigit) = _
    rw [hdigit]
    rfl
  · rfl

/-- Characters that read as one word. -/
structure IsWord (word : String) : Prop where
  ne_nil : word.toList ≠ []
  plain : word.toList.all (!isTerminator ·) = true
  no_number : startsNumber word.toList = false

/-- A word that reads as a symbol. -/
structure IsName (name : String) : Prop extends IsWord name where
  symbol : ofWord name = .symbol name

/-- In front of a terminator or the end a word is scanned as a whole. -/
theorem IsWord.scan_eq {word : String} (h : IsWord word) {rest : List Char} (hrest : Stops rest)
    {c : Char} {cs : List Char} (hcs : word.toList ++ rest = c :: cs) :
    startsGap c = false ∧ scan c cs = ⟨.ok (ofWord word), word.toList, rest⟩ := by
  have hc : isTerminator c = false := by
    obtain ⟨d, ds, hds⟩ := List.exists_cons_of_ne_nil h.ne_nil
    have hplain := h.plain
    simp only [hds, List.cons_append, List.cons.injEq] at hplain hcs
    simp_all
  have hsplit : splitWhile (!isTerminator ·) (word.toList ++ rest) = (word.toList, rest) :=
    splitWhile_of_all (List.all_eq_true.1 h.plain) fun d hd => by simp [hrest d hd]
  refine ⟨startsGap_of_isTerminator hc, ?_⟩
  rw [scan_of_isTerminator hc, ← hcs, startsNumber_of_stops hrest h.ne_nil,
    if_neg (by simp [h.no_number]), scanWord, hsplit]
  simp only [readWord_of_ne_nil h.ne_nil, String.ofList_toList]

theorem IsWord.spelledBy {word : String} (h : IsWord word) :
    Token.SpelledBy (ofWord word) word.toList := by
  intro p rest hrest
  have hne : word.toList ++ rest ≠ [] := List.append_ne_nil_of_left_ne_nil h.ne_nil rest
  obtain ⟨c, cs, hcs⟩ := List.exists_cons_of_ne_nil hne
  obtain ⟨hc, hscan⟩ := h.scan_eq hrest hcs
  rw [hcs]
  exact Tokens.ofText_of_scan hc hscan p

theorem IsName.spelledBy {name : String} (h : IsName name) :
    Token.SpelledBy (.symbol name) name.toList := by
  rw [← h.symbol]
  exact h.toIsWord.spelledBy

theorem eq_of_ofWord {word name : String} (h : ofWord word = .symbol name) : name = word := by
  unfold ofWord at h
  split_ifs at h
  cases h
  rfl

/-- What is scanned as a word is one. -/
theorem scanWord_eq {cs : List Char} (hne : (scanWord cs).lexeme ≠ [])
    (hnumber : startsNumber cs = false) :
    IsWord (String.ofList (scanWord cs).lexeme) ∧
      (scanWord cs).outcome = .ok (ofWord (String.ofList (scanWord cs).lexeme)) := by
  have hsplit : (splitWhile (!isTerminator ·) cs).1 ++ (splitWhile (!isTerminator ·) cs).2 = cs :=
    List.takeWhile_append_dropWhile
  simp only [scanWord] at hne ⊢
  refine ⟨⟨by simpa using hne, List.all_eq_true.2 fun d hd => ?_, ?_⟩, readWord_of_ne_nil hne⟩
  · rw [String.toList_ofList] at hd
    exact List.mem_takeWhile_imp (p := (!isTerminator ·)) hd
  · rwa [String.toList_ofList, ← startsNumber_of_stops (stops_splitWhile cs) hne, hsplit]

/-- Every symbol that a text brings in is a name. -/
theorem isName_of_scan {c : Char} {cs : List Char} {name : String} (hc : startsGap c = false)
    (h : (scan c cs).outcome = .ok (.symbol name)) : IsName name := by
  have hne := scan_lexeme_ne_nil hc cs
  cases c, cs using scan_cases with
  | bracket c t cs hb =>
    rw [scan_bracket hb] at h
    cases h
    unfold bracket? at hb
    split at hb <;> cases hb
  | quoting cs => cases h
  | quote d cs hd =>
    rw [scan_quote hd] at h
    cases h
  | quoteAtEnd => cases h
  | text cs =>
    rw [scan_text] at h
    cases ho : (scanText cs).outcome <;> simp [ho, Except.map] at h
  | other c cs hb hq ht =>
    rw [scan_other hb hq ht] at h hne
    split at h
    · simp only [scanNumber, readNumeral] at h
      split at h <;> cases h
    · rename_i hnumber
      rw [if_neg hnumber] at hne
      obtain ⟨hword, hread⟩ := scanWord_eq hne (by simpa using hnumber)
      rw [hread, Except.ok.injEq] at h
      obtain rfl := eq_of_ofWord h
      exact ⟨hword, h⟩

/-! Numbers. -/

theorem marked_of_head {q : Char → Bool} {f : Split} {cs : List Char}
    (h : ∀ c ∈ cs.head?, q c = false) : Split.marked q f cs = ([], cs) := by
  cases cs with
  | nil => rfl
  | cons c cs => simp [Split.marked, h c rfl]

theorem marked_cons {q : Char → Bool} {f : Split} {c : Char} {cs part rest : List Char}
    (hc : q c = true) (hf : f cs = (part, rest)) :
    Split.marked q f (c :: cs) = (c :: part, rest) := by
  simp [Split.marked, hc, hf]

theorem andThen_eq {f g : Split} {cs ds first second rest : List Char} (hf : f cs = (first, ds))
    (hg : g ds = (second, rest)) : f.andThen g cs = (first ++ second, rest) := by
  simp [Split.andThen, hf, hg]

theorem signed_append (negative : Bool) (ds es : List Char) :
    Number.signed negative (ds ++ es) = Number.signed negative ds ++ es := by
  cases negative <;> rfl

theorem isSign_of_isDigit {c : Char} (h : c.isDigit = true) : isSign c = false := by
  simp only [isSign, Bool.or_eq_false_iff, decide_eq_false_iff_not]
  constructor <;> rintro rfl <;> cases h

theorem splitSigned_of_digits {ds rest : List Char} (hne : ds ≠ [])
    (hds : ∀ c ∈ ds, c.isDigit = true) (hrest : ∀ c ∈ rest.head?, c.isDigit = false)
    (negative : Bool) :
    splitSigned (Number.signed negative ds ++ rest) = (Number.signed negative ds, rest) := by
  have hdigits := splitWhile_of_all hds hrest
  cases negative with
  | true => exact andThen_eq (marked_cons rfl rfl) hdigits
  | false =>
    have hsign : ∀ c ∈ (ds ++ rest).head?, isSign c = false := by
      obtain ⟨d, ds, rfl⟩ := List.exists_cons_of_ne_nil hne
      rintro _ ⟨⟩
      exact isSign_of_isDigit (hds d (by simp))
    exact andThen_eq (marked_of_head hsign) hdigits

theorem splitNumeral_signed (n : Number.Numeral) (negative : Bool) {rest : List Char}
    (hrest : Stops rest) :
    splitNumeral (Number.signed negative n.chars ++ rest) =
      (Number.signed negative n.chars, rest) := by
  have hdigit : ∀ c ∈ rest.head?, c.isDigit = false := hrest.head fun _ => isTerminator_of_isDigit
  have hpoint : ∀ c ∈ rest.head?, decide (c = '.') = false := hrest.head fun c hc => by
    rw [of_decide_eq_true hc]
    decide
  have hmark : ∀ c ∈ rest.head?, (decide (c = 'e') || decide (c = 'E')) = false :=
    hrest.head fun c hc => by
      simp only [Bool.or_eq_true, decide_eq_true_eq] at hc
      rcases hc with rfl | rfl <;> decide
  unfold Number.Numeral.chars
  split
  · have h := andThen_eq (splitSigned_of_digits n.whole_ne n.isDigit_whole hdigit negative)
      (andThen_eq (marked_of_head (f := splitWhile Char.isDigit) hpoint)
        (marked_of_head (f := splitSigned) hmark))
    rwa [List.append_nil, List.append_nil] at h
  · rw [signed_append, List.append_assoc, List.cons_append]
    have hwhole := @splitSigned_of_digits _ ('.' :: (n.fraction ++ rest)) n.whole_ne
      n.isDigit_whole (by rintro _ ⟨⟩; rfl) negative
    have hfraction := marked_cons (q := (decide <| · = '.')) (c := '.') (by decide)
      (splitWhile_of_all n.isDigit_fraction hdigit)
    have h := andThen_eq hwhole
      (andThen_eq hfraction (marked_of_head (f := splitSigned) hmark))
    rwa [List.append_nil] at h

theorem spelledBy_numeral (n : Number.Numeral) (negative : Bool) :
    Token.SpelledBy (.atom (.number (n.decimal.toNumber negative)))
      (Number.signed negative n.chars) := by
  intro p rest hrest
  have hread : readNumeral (Number.signed negative n.chars) rest =
      .ok (.atom (.number (n.decimal.toNumber negative))) := by
    have hstop : rest.head?.filter (!isTerminator ·) = none :=
      Option.filter_eq_none_iff.2 fun c hc => by simp [hrest c hc]
    rw [readNumeral, hstop, n.readChars?_signed]
  obtain ⟨c, cs, hcs, hc, hstart⟩ : ∃ c cs, Number.signed negative n.chars = c :: cs ∧
      isTerminator c = false ∧ startsNumber (c :: cs ++ rest) = true := by
    obtain ⟨d, ds, hds, hd⟩ := n.chars_head
    rw [hds]
    cases negative with
    | true => exact ⟨'-', d :: ds, rfl, by decide, by simp [startsNumber, isSign, hd]⟩
    | false => exact ⟨d, ds, rfl, isTerminator_of_isDigit hd, by simp [startsNumber, hd]⟩
  have hscan : scan c (cs ++ rest) =
      ⟨.ok (.atom (.number (n.decimal.toNumber negative))), c :: cs, rest⟩ := by
    rw [scan_of_isTerminator hc, ← List.cons_append, if_pos hstart, ← hcs, scanNumber,
      splitNumeral_signed n negative hrest]
    simp only [hread]
  rw [hcs]
  exact Tokens.ofText_of_scan (startsGap_of_isTerminator hc) hscan p

end Lexeme

end Lisplet
