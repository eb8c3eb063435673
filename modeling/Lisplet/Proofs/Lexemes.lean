import Lisplet.Proofs.Spelling
import Mathlib

/-!
Lexemes and gaps. A text is cut into lexemes with gaps between them, and nothing of it is lost: each
reading of a token passes over a gap and takes a lexeme that denotes the token and is told from what
follows, or it fails because there is none to take. The place of a token is found by counting the
newlines in all text before it and the characters behind the last of them.
-/

namespace Lisplet

namespace Position

/-- The place behind a text, counted out. -/
def behind (before : List Char) : Position :=
  ⟨1 + before.count '\n', 1 + (before.reverse.takeWhile (· ≠ '\n')).length⟩

theorem past_start (before : List Char) : start.past before = behind before := by
  induction before using List.reverseRecOn with
  | nil => rfl
  | append_singleton before c ih =>
    rw [past_append, ih]
    by_cases hc : c = '\n' <;> simp [behind, next, hc]
    all_goals omega

theorem past_behind (before cs : List Char) : (behind before).past cs = behind (before ++ cs) := by
  rw [← past_start, ← past_append, past_start]

end Position

/-- Symbols, numbers and the words for other atoms go on up to a terminator; every other token shows
its own end. -/
def Token.isOpenEnded : Token → Bool
  | symbol _ | atom .nil | atom (.bool _) | atom (.number _) => true
  | _ => false

namespace Lexeme

/-! Gaps. -/

/-- What can stand in front of `rest` without being part of a lexeme: blanks, commas, and comments
up to a newline. Only at the end of the text a comment may do without one. -/
inductive Gap (rest : List Char) : List Char → Prop
  | nil : Gap rest []
  | blank {c : Char} {cs : List Char} (hc : Text.isBlank c = true ∨ c = ',') (h : Gap rest cs) :
      Gap rest (c :: cs)
  | comment {body cs : List Char} (hbody : '\n' ∉ body) (h : Gap rest cs) :
      Gap rest (';' :: (body ++ '\n' :: cs))
  | last {body : List Char} (hbody : '\n' ∉ body) (hrest : rest = []) : Gap rest (';' :: body)

/-- A comment can be longer by a character that is no newline. -/
theorem Gap.comment_cons {rest cs : List Char} (h : Gap rest (';' :: cs)) {c : Char}
    (hc : c ≠ '\n') : Gap rest (';' :: c :: cs) := by
  have hbody {body : List Char} (hbody : '\n' ∉ body) : '\n' ∉ c :: body := by
    simp [hbody, hc.symm]
  rcases h with _ | ⟨hblank, -⟩ | ⟨hin, hcs⟩ | ⟨hin, hrest⟩
  · exact absurd hblank (by decide)
  · exact .comment (hbody hin) hcs
  · exact .last (hbody hin) hrest

/-- The characters passed over make up a gap. From inside a comment they do so behind a semicolon.
-/
theorem gap_splitGap (inComment : Bool) (cs : List Char) :
    Gap (splitGap inComment cs).2
      (if inComment then ';' :: (splitGap inComment cs).1 else (splitGap inComment cs).1) := by
  induction cs generalizing inComment with
  | nil =>
    rcases inComment with _ | _
    · exact .nil
    · exact .last (by simp [splitGap]) rfl
  | cons c cs ih =>
    rcases inComment with _ | _
    · simp only [splitGap]
      split
      · rename_i hc
        by_cases hs : c = ';'
        · simpa [hs] using ih true
        · have hblank : Text.isBlank c = true ∨ c = ',' := by simpa [hs] using hc
          have hnot : (c == ';') = false := by simpa using hs
          rw [hnot]
          exact .blank hblank (ih false)
      · exact .nil
    · by_cases hc : c = '\n'
      · subst hc
        exact .comment List.not_mem_nil (ih false)
      · have hin : (c != '\n') = true := by simpa using hc
        simp only [splitGap, hin]
        exact (ih true).comment_cons hc

/-! What a lexeme denotes. -/

/-- A letter behind a backslash, and the character that the two stand for. -/
inductive Escape : Char → Char → Prop
  | newline : Escape 'n' '\n'
  | tab : Escape 't' '\t'
  | carriageReturn : Escape 'r' '\r'
  | backslash : Escape '\\' '\\'
  | quote : Escape '"' '"'

/-- What stands between quotes, and the characters that it stands for. -/
inductive Quoted : List Char → List Char → Prop
  | nil : Quoted [] []
  | plain {c : Char} {body text : List Char} (hquote : c ≠ '"') (hslash : c ≠ '\\')
      (h : Quoted body text) : Quoted (c :: body) (c :: text)
  | escape {letter c : Char} {body text : List Char} (hc : Escape letter c)
      (h : Quoted body text) : Quoted ('\\' :: letter :: body) (c :: text)

inductive Denotes : List Char → Token → Prop
  | openRound : Denotes ['('] (.opening .round)
  | closeRound : Denotes [')'] (.closing .round)
  | openSquare : Denotes ['['] (.opening .square)
  | closeSquare : Denotes [']'] (.closing .square)
  | openCurly : Denotes ['\x7b'] (.opening .curly)
  | closeCurly : Denotes ['\x7d'] (.closing .curly)
  | quoting : Denotes ['\'', '('] .quoting
  | text {body text : List Char} (h : Quoted body text) :
      Denotes ('"' :: (body ++ ['"'])) (.atom (.text (String.ofList text)))
  | number {numeral : List Char} {x : Number} (hstart : startsNumber numeral = true)
      (h : Number.readChars? numeral = some x) : Denotes numeral (.atom (.number x))
  | nil : Denotes "nil".toList (.atom .nil)
  | yes : Denotes "true".toList (.atom (.bool true))
  | no : Denotes "false".toList (.atom (.bool false))
  | symbol {name : String} (h : IsWord name) (hnil : name ≠ "nil") (hyes : name ≠ "true")
      (hno : name ≠ "false") : Denotes name.toList (.symbol name)

theorem unescape?_eq_some {letter c : Char} :
    Text.unescape? letter = some c ↔ Escape letter c := by
  constructor
  · intro h
    unfold Text.unescape? at h
    split at h <;> cases h <;> constructor
  · intro h
    cases h <;> rfl

theorem denotes_of_bracket? {c : Char} {t : Token} (h : bracket? c = some t) : Denotes [c] t := by
  unfold bracket? at h
  split at h <;> cases h <;> constructor

theorem denotes_ofWord {word : String} (h : IsWord word) :
    Denotes word.toList (ofWord word) := by
  unfold ofWord
  split_ifs with hnil hyes hno
  · exact hnil ▸ .nil
  · exact hyes ▸ .yes
  · exact hno ▸ .no
  · exact .symbol h hnil hyes hno

/-- The lexeme denotes the token, and what follows does not run into it. -/
structure Reads (lexeme rest : List Char) (t : Token) : Prop where
  denotes : Denotes lexeme t
  stops : t.isOpenEnded = true → Stops rest

theorem isTerminator_of_isNumeric {c : Char} (h : Number.isNumeric c = true) :
    isTerminator c = false := by
  simp only [Number.isNumeric, Bool.or_eq_true, decide_eq_true_eq] at h
  rcases h with ((((h | rfl) | rfl) | rfl) | rfl) | rfl
  · exact isTerminator_of_isDigit h
  all_goals decide

/-! A lexeme that denotes a token is scanned as that token. -/

theorem scanText_of_quoted {body text : List Char} (h : Quoted body text) (rest : List Char) :
    scanText (body ++ '"' :: rest) = ⟨.ok text, body ++ ['"'], rest⟩ := by
  induction h with
  | nil => rfl
  | plain hquote hslash _ ih =>
    rw [List.cons_append, scanText_plain hquote hslash, ih]
    rfl
  | escape hc _ ih =>
    simp only [List.cons_append, scanText, unescape?_eq_some.2 hc, ih]
    rfl

theorem splitSigned_snd (cs : List Char) :
    (splitSigned cs).2 = (Number.splitSign cs).2.dropWhile Char.isDigit := by
  unfold Number.splitSign
  split
  · rfl
  · rfl
  · rename_i hminus hplus
    rcases cs with _ | ⟨c, cs⟩
    · rfl
    · have hsign : isSign c = false := by
        simp only [isSign, Bool.or_eq_false_iff, decide_eq_false_iff_not]
        exact ⟨fun h => hminus cs (by rw [h]), fun h => hplus cs (by rw [h])⟩
      simp [splitSigned, Split.andThen, Split.marked, hsign, splitWhile]

theorem marked_point_snd (cs : List Char) :
    (Split.marked (· = '.') (splitWhile Char.isDigit) (cs.dropWhile Char.isDigit)).2 =
      (Number.splitMantissa cs).2.2 := by
  unfold Number.splitMantissa
  rcases cs.dropWhile Char.isDigit with _ | ⟨c, rest⟩
  · rfl
  · by_cases hc : c = '.'
    · subst hc
      rfl
    · simp [Split.marked, hc]

theorem marked_exponent_snd {cs : List Char} {e : Int} (h : Number.readExponent? cs = some e) :
    (Split.marked (fun c => c = 'e' || c = 'E') splitSigned cs).2 = [] := by
  rcases cs with _ | ⟨c, cs⟩
  · rfl
  · simp only [Number.readExponent?] at h
    split at h
    · rename_i hshape
      obtain ⟨hmark, -, hdigits⟩ := hshape
      have hmark' : (decide (c = 'e') || decide (c = 'E')) = true := by simpa using hmark
      simp only [Split.marked, hmark', if_true, splitSigned_snd]
      simpa using hdigits
    · cases h

/-- A literal has the shape of a number to its end. -/
theorem splitNumeral_of_readChars? {numeral : List Char} {x : Number}
    (h : Number.readChars? numeral = some x) : splitNumeral numeral = (numeral, []) := by
  have hrest : (splitNumeral numeral).2 = [] := by
    simp only [Number.readChars?, bind, Option.bind_eq_some_iff] at h
    obtain ⟨-, -, e, he, -⟩ := h
    simp only [splitNumeral, Split.andThen, splitSigned_snd, marked_point_snd]
    exact marked_exponent_snd he
  have hsplit := splitNumeral_within.split numeral
  rw [hrest, List.append_nil] at hsplit
  exact Prod.ext hsplit hrest

theorem splitNumeral_append {numeral rest : List Char} {x : Number}
    (h : Number.readChars? numeral = some x) (hrest : Stops rest) :
    splitNumeral (numeral ++ rest) = (numeral, rest) := by
  have hhead : ∀ c ∈ rest.head?, Number.isNumeric c = false :=
    hrest.head fun _ => isTerminator_of_isNumeric
  rw [splitNumeral_within.append numeral rest (.inr hhead), splitNumeral_of_readChars? h]
  rfl

theorem readNumeral_eq_ok {numeral rest : List Char} {t : Token} :
    readNumeral numeral rest = .ok t ↔
      Stops rest ∧ ∃ x, Number.readChars? numeral = some x ∧ t = .atom (.number x) := by
  have hstops : Stops rest ↔ rest.head?.filter (!isTerminator ·) = none := by
    simp [Stops, Option.filter_eq_none_iff]
  rw [hstops]
  unfold readNumeral
  rcases rest.head?.filter (!isTerminator ·) with _ | c <;>
    rcases Number.readChars? numeral with _ | x <;> simp [eq_comm]

theorem isTerminator_of_startsNumber {c : Char} {cs : List Char}
    (h : startsNumber (c :: cs) = true) : isTerminator c = false := by
  simp only [startsNumber, Bool.or_eq_true, Bool.and_eq_true] at h
  rcases h with hdigit | ⟨hsign, -⟩
  · exact isTerminator_of_isDigit hdigit
  · simp only [isSign, Bool.or_eq_true, decide_eq_true_eq] at hsign
    rcases hsign with rfl | rfl <;> decide

theorem scan_of_number {numeral rest : List Char} {x : Number}
    (hstart : startsNumber numeral = true) (h : Number.readChars? numeral = some x)
    (hrest : Stops rest) {c : Char} {cs : List Char} (hcs : numeral ++ rest = c :: cs) :
    scan c cs = ⟨.ok (.atom (.number x)), numeral, rest⟩ := by
  have hne : numeral ≠ [] := by
    rintro rfl
    cases hstart
  have hstart' : startsNumber (c :: cs) = true := by
    rwa [← hcs, startsNumber_of_stops hrest hne]
  rw [scan_of_isTerminator (isTerminator_of_startsNumber hstart'), if_pos hstart', ← hcs,
    scanNumber, splitNumeral_append h hrest]
  simp only [readNumeral_eq_ok.2 ⟨hrest, x, h, rfl⟩]

theorem Reads.scan_eq {lexeme rest : List Char} {t : Token} (h : Reads lexeme rest t) {c : Char}
    {cs : List Char} (hcs : lexeme ++ rest = c :: cs) : scan c cs = ⟨.ok t, lexeme, rest⟩ := by
  obtain ⟨hd, hstops⟩ := h
  cases hd with
  | openRound | closeRound | openSquare | closeSquare | openCurly | closeCurly =>
    obtain ⟨rfl, rfl⟩ := List.cons.inj hcs
    exact scan_bracket rfl _
  | quoting =>
    obtain ⟨rfl, rfl⟩ := List.cons.inj hcs
    rfl
  | text hquoted =>
    rw [List.cons_append, List.append_assoc, List.singleton_append] at hcs
    obtain ⟨rfl, rfl⟩ := List.cons.inj hcs
    rw [scan_text, scanText_of_quoted hquoted]
    rfl
  | number hstart hread => exact scan_of_number hstart hread (hstops rfl) hcs
  | nil | yes | no =>
    exact (IsWord.scan_eq ⟨by decide, by decide, by decide⟩ (hstops rfl) hcs).2
  | symbol hword hnil hyes hno =>
    have hscan := (hword.scan_eq (hstops rfl) hcs).2
    rwa [ofWord, if_neg hnil, if_neg hyes, if_neg hno] at hscan

/-! What is scanned as a token denotes it. -/

theorem extend_ok {before text : List Char} {f : List Char → List Char} {s : Scan (List Char)}
    (h : (s.extend before f).outcome = .ok text) :
    ∃ inner, s.outcome = .ok inner ∧ f inner = text := by
  rcases ho : s.outcome with e | inner <;> simp only [Scan.extend, ho, Except.map] at h
  · cases h
  · exact ⟨inner, rfl, by simpa using h⟩

theorem quoted_of_scanText {cs text : List Char} (h : (scanText cs).outcome = .ok text) :
    ∃ body, (scanText cs).lexeme = body ++ ['"'] ∧ Quoted body text := by
  fun_induction scanText cs generalizing text with
  | case1 => cases h
  | case2 cs =>
    cases h
    exact ⟨[], rfl, .nil⟩
  | case3 => cases h
  | case4 letter cs u hu ih =>
    obtain ⟨inner, ho, rfl⟩ := extend_ok h
    obtain ⟨body, hbody, hquoted⟩ := ih ho
    exact ⟨'\\' :: letter :: body, by simp [Scan.extend, hbody],
      .escape (unescape?_eq_some.1 hu) hquoted⟩
  | case5 => cases h
  | case6 c cs hquote hend hslash ih =>
    obtain ⟨inner, ho, rfl⟩ := extend_ok h
    obtain ⟨body, hbody, hquoted⟩ := ih ho
    refine ⟨c :: body, by simp [Scan.extend, hbody], .plain hquote (fun hc => ?_) hquoted⟩
    rcases cs with _ | ⟨d, cs⟩
    · exact hend hc rfl
    · exact hslash d cs hc rfl

theorem reads_of_scan {c : Char} (hc : startsGap c = false) {cs : List Char} {t : Token}
    (h : (scan c cs).outcome = .ok t) : Reads (scan c cs).lexeme (scan c cs).rest t := by
  have hne := scan_lexeme_ne_nil hc cs
  cases c, cs using scan_cases with
  | bracket c u cs hb =>
    rw [scan_bracket hb] at h ⊢
    cases h
    refine ⟨denotes_of_bracket? hb, fun hopen => ?_⟩
    unfold bracket? at hb
    split at hb <;> cases hb <;> cases hopen
  | quoting cs =>
    cases h
    exact ⟨.quoting, by rintro ⟨⟩⟩
  | quote d cs hd =>
    rw [scan_quote hd] at h
    cases h
  | quoteAtEnd => cases h
  | text cs =>
    rw [scan_text] at h ⊢
    rcases ho : (scanText cs).outcome with e | text <;> simp only [ho, Except.map] at h <;> cases h
    obtain ⟨body, hbody, hquoted⟩ := quoted_of_scanText ho
    exact ⟨hbody ▸ .text hquoted, by rintro ⟨⟩⟩
  | other c cs hb hq ht =>
    rw [scan_other hb hq ht] at h hne ⊢
    split at h
    · rename_i hnumber
      rw [if_pos hnumber] at hne ⊢
      simp only [scanNumber] at h hne ⊢
      obtain ⟨hstops, x, hread, rfl⟩ := readNumeral_eq_ok.1 h
      refine ⟨.number ?_ hread, fun _ => hstops⟩
      rwa [← startsNumber_of_stops hstops hne, splitNumeral_within.split]
    · rename_i hnumber
      rw [if_neg hnumber] at hne ⊢
      obtain ⟨hword, hread⟩ := scanWord_eq hne (by simpa using hnumber)
      rw [hread, Except.ok.injEq] at h
      subst h
      refine ⟨?_, fun _ => stops_splitWhile _⟩
      have hdenotes := denotes_ofWord hword
      rwa [String.toList_ofList] at hdenotes

theorem extend_error {before : List Char} {f : List Char → List Char} {s : Scan (List Char)}
    {cause : LexFault} (h : (s.extend before f).outcome = .error cause) :
    s.outcome = .error cause := by
  rcases ho : s.outcome with e | inner <;> simp only [Scan.extend, ho, Except.map] at h
  · rw [h]
  · cases h

theorem scanText_ne_stray (cs : List Char) : (scanText cs).outcome ≠ .error .stray := by
  intro h
  fun_induction scanText cs with
  | case1 => cases h
  | case2 => cases h
  | case3 => cases h
  | case4 letter cs u hu ih => exact ih (extend_error h)
  | case5 => cases h
  | case6 c cs hquote hend hslash ih => exact ih (extend_error h)

theorem scan_ne_stray {c : Char} (hc : startsGap c = false) (cs : List Char) :
    (scan c cs).outcome ≠ .error .stray := by
  have hne := scan_lexeme_ne_nil hc cs
  cases c, cs using scan_cases with
  | bracket c t cs hb => simp [scan_bracket hb]
  | quoting cs => simp [scan_quoting]
  | quote d cs hd => simp [scan_quote hd]
  | quoteAtEnd => simp [scan, bracket?]
  | text cs =>
    have htext := scanText_ne_stray cs
    rw [scan_text]
    rcases ho : (scanText cs).outcome with e | text <;> simp_all [Except.map]
  | other c cs hb hq ht =>
    rw [scan_other hb hq ht] at hne ⊢
    split
    · simp only [scanNumber, readNumeral]
      split <;> simp
    · rename_i hnumber
      rw [if_neg hnumber] at hne
      simp [scanWord_eq hne (by simpa using hnumber)]

/-- What reading one token off a text comes to: a gap is passed over and a lexeme is taken, which is
read as a token unless the text behind the gap starts with none. -/
structure Advances (text gap : List Char) (s : Scan Token) : Prop where
  split : gap ++ (s.lexeme ++ s.rest) = text
  isGap : Gap (s.lexeme ++ s.rest) gap
  ne_nil : s.lexeme ≠ []
  reads : ∀ t, s.outcome = .ok t → Reads s.lexeme s.rest t
  fails : ∀ e, s.outcome = .error e →
    e ≠ .stray ∧ ∀ lexeme rest t, s.lexeme ++ s.rest = lexeme ++ rest → ¬Reads lexeme rest t

theorem advances_of_splitGap {cs gap ds : List Char} {c : Char}
    (h : splitGap false cs = (gap, c :: ds)) : Advances cs gap (scan c ds) := by
  have hc := splitGap_head h
  have hsplit := scan_split c ds
  refine ⟨?_, ?_, scan_lexeme_ne_nil hc ds, fun t => reads_of_scan hc, fun e he => ⟨?_, ?_⟩⟩
  · rw [hsplit]
    simpa [h] using splitGap_split false cs
  · rw [hsplit]
    simpa [h] using gap_splitGap false cs
  · rintro rfl
    exact scan_ne_stray hc ds he
  · intro lexeme rest t htext hreads
    rw [hreads.scan_eq (htext.symm.trans hsplit)] at he
    cases he

end Lexeme

namespace Tokens

open Lexeme

/-- The tokens account for all of a text that stands behind another, up to its end or to the first
fault, and each place is counted out over all text before it. -/
inductive Covers : (before text : List Char) → Tokens → Prop
  | done {before gap : List Char} (h : Gap [] gap) :
      Covers before gap (.done (.behind (before ++ gap)))
  | fault {before text gap : List Char} {s : Scan Token} {cause : LexFault}
      (h : Advances text gap s) (hs : s.outcome = .error cause) :
      Covers before text (.fault cause (.behind (before ++ (gap ++ s.lexeme))))
  | next {before text gap : List Char} {s : Scan Token} {t : Token} {tokens : Tokens}
      (h : Advances text gap s) (hs : s.outcome = .ok t)
      (hrest : Covers (before ++ (gap ++ s.lexeme)) s.rest tokens) :
      Covers before text (.next t (.behind (before ++ gap)) tokens)

theorem covers_ofText (before text : List Char) :
    Covers before text (ofText (.behind before) text) := by
  induction text using text_induction generalizing before with
  | gap text gap hgap =>
    have hsplit := splitGap_split false text
    simp only [hgap, List.append_nil] at hsplit
    subst hsplit
    rw [ofText_of_gap hgap, Position.past_behind]
    exact .done (by simpa [hgap] using gap_splitGap false gap)
  | lexeme text gap c ds hgap ih =>
    have hadvances := advances_of_splitGap hgap
    rw [ofText_of_lexeme hgap]
    rcases ho : (scan c ds).outcome with e | t <;>
      simp only [Position.past_behind, List.append_assoc]
    · exact .fault hadvances ho
    · exact .next hadvances ho (ih _)

/-- Whatever a text holds, its tokens cover it, and so do the tokens of what is left of it when
reading starts again behind any part. -/
theorem lexemes_cover_text :
    (∀ s, Covers [] s.toList (ofString s)) ∧
      ∀ before text, Covers before text (ofText (.behind before) text) :=
  ⟨fun s => covers_ofText [] s.toList, covers_ofText⟩

end Tokens

end Lisplet
