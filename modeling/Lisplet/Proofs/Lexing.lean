import Lisplet.Source.Tokens
import Mathlib.Data.List.TakeWhile

/-!
The tokens of a text. Every scan splits what stands in front of it without losing anything and takes
at least one character, so the fuel of `Tokens.ofChars` never matters and `Tokens.ofText` has the
equations of a loop.
-/

namespace Lisplet

namespace Lexeme

/-- The characters that a gap can start with. -/
def startsGap (c : Char) : Bool := Text.isBlank c || c = ',' || c = ';'

theorem splitGap_split (inComment : Bool) (cs : List Char) :
    (splitGap inComment cs).1 ++ (splitGap inComment cs).2 = cs := by
  induction cs generalizing inComment with
  | nil => cases inComment <;> rfl
  | cons c cs ih =>
    cases inComment with
    | true => simp [splitGap, ih]
    | false =>
      simp only [splitGap]
      split <;> simp [ih]

/-- What follows a gap does not start another. -/
theorem splitGap_head {inComment : Bool} {cs gap rest : List Char} {c : Char}
    (h : splitGap inComment cs = (gap, c :: rest)) : startsGap c = false := by
  induction cs generalizing inComment gap with
  | nil => cases inComment <;> cases h
  | cons d cs ih =>
    cases inComment with
    | true =>
      simp only [splitGap, Prod.mk.injEq] at h
      exact ih (Prod.ext rfl h.2)
    | false =>
      simp only [splitGap] at h
      split at h
      · simp only [Prod.mk.injEq] at h
        exact ih (Prod.ext rfl h.2)
      · rename_i hd
        simp only [Prod.mk.injEq, List.cons.injEq] at h
        obtain ⟨-, rfl, -⟩ := h
        simpa [startsGap] using hd

theorem splitGap_of_head {c : Char} (hc : startsGap c = false) (cs : List Char) :
    splitGap false (c :: cs) = ([], c :: cs) := by
  unfold startsGap at hc
  simp [splitGap, hc]

/-- A split that loses nothing and takes only characters of a class. From a longer text it takes the
same, unless it took everything and more characters of the class follow. -/
structure Split.Within (p : Char → Bool) (f : Split) : Prop where
  split : ∀ cs, (f cs).1 ++ (f cs).2 = cs
  all : ∀ cs, ∀ c ∈ (f cs).1, p c = true
  append : ∀ cs more, (f cs).2 ≠ [] ∨ (∀ c ∈ more.head?, p c = false) →
    f (cs ++ more) = ((f cs).1, (f cs).2 ++ more)

namespace Split.Within

variable {p q : Char → Bool} {f g : Split}

theorem splitWhile (hq : ∀ c, q c = true → p c = true) : Within p (splitWhile q) where
  split cs := List.takeWhile_append_dropWhile
  all cs c hc := hq c (List.mem_takeWhile_imp hc)
  append cs more h := by
    induction cs with
    | nil =>
      rcases more with _ | ⟨d, more⟩
      · rfl
      · have hd : ¬q d = true := by
          intro hd
          simpa [hq d hd] using h.resolve_left (fun hne => hne rfl) d rfl
        simp [Lexeme.splitWhile, hd]
    | cons c cs ih =>
      by_cases hc : q c = true
      · simp only [Lexeme.splitWhile, List.cons_append, List.takeWhile_cons, List.dropWhile_cons,
          hc, if_true, Prod.mk.injEq, List.cons.injEq, true_and] at h ih ⊢
        exact ih h
      · simp [Lexeme.splitWhile, hc]

theorem nothing : Within p ([], ·) := ⟨fun _ => rfl, fun _ _ => nofun, fun _ _ _ => rfl⟩

theorem marked (hq : ∀ c, q c = true → p c = true) (hf : Within p f) :
    Within p (Split.marked q f) where
  split cs := by
    cases cs with
    | nil => rfl
    | cons c cs =>
      simp only [Split.marked]
      split <;> simp [hf.split]
  all cs := by
    cases cs with
    | nil => exact fun _ => nofun
    | cons c cs =>
      simp only [Split.marked]
      split
      · rename_i hc
        simpa using ⟨hq c hc, hf.all cs⟩
      · exact fun _ => nofun
  append cs more h := by
    cases cs with
    | nil =>
      rcases more with _ | ⟨d, more⟩
      · rfl
      · have hd : ¬q d = true := by
          intro hd
          simpa [hq d hd] using h.resolve_left (fun hne => hne rfl) d rfl
        simp [Split.marked, hd]
    | cons c cs =>
      simp only [Split.marked, List.cons_append] at h ⊢
      split
      · rename_i hc
        simp only [hc, if_true] at h
        rw [hf.append cs more h]
      · rfl

theorem andThen (hf : Within p f) (hg : Within p g) : Within p (f.andThen g) where
  split cs := by simp [Split.andThen, hg.split, hf.split]
  all cs c hc := by
    simp only [Split.andThen, List.mem_append] at hc
    rcases hc with hc | hc
    · exact hf.all _ _ hc
    · exact hg.all _ _ hc
  append cs more h := by
    simp only [Split.andThen] at h ⊢
    have hfst : (f cs).2 ≠ [] ∨ ∀ c ∈ more.head?, p c = false := by
      refine h.imp_left fun hsnd hnil => hsnd ?_
      have hs := hg.split (f cs).2
      simp only [hnil, List.append_eq_nil_iff] at hs ⊢
      exact hs.2
    rw [hf.append cs more hfst, hg.append _ more h]

end Split.Within

theorem splitNumeral_within : Split.Within Number.isNumeric splitNumeral := by
  have hdigit : ∀ c, Char.isDigit c = true → Number.isNumeric c = true := by
    intro c hc
    simp [Number.isNumeric, hc]
  have hsign : ∀ c, isSign c = true → Number.isNumeric c = true := by
    intro c hc
    rcases (by simpa [isSign] using hc : c = '-' ∨ c = '+') with rfl | rfl <;> rfl
  have hmark : ∀ c, (decide (c = 'e') || decide (c = 'E')) = true → Number.isNumeric c = true := by
    intro c hc
    rcases (by simpa using hc : c = 'e' ∨ c = 'E') with rfl | rfl <;> rfl
  have hpoint : ∀ c, decide (c = '.') = true → Number.isNumeric c = true := by
    intro c hc
    rw [of_decide_eq_true hc]
    rfl
  have hsigned : Split.Within Number.isNumeric splitSigned :=
    .andThen (.marked hsign .nothing) (.splitWhile hdigit)
  exact .andThen hsigned (.andThen (.marked hpoint (.splitWhile hdigit)) (.marked hmark hsigned))

theorem scanText_split (cs : List Char) : (scanText cs).lexeme ++ (scanText cs).rest = cs := by
  fun_induction scanText cs <;> simp_all [Scan.extend]

theorem scanText_plain {c : Char} (hq : c ≠ '"') (hb : c ≠ '\\') (cs : List Char) :
    scanText (c :: cs) = (scanText cs).extend [c] (c :: ·) := by
  rw [scanText]
  · exact hq
  · exact fun h => absurd h hb
  · exact fun _ _ h => absurd h hb

/-! The five kinds of lexemes, by their first character. -/

theorem scan_bracket {c : Char} {t : Token} (h : bracket? c = some t) (cs : List Char) :
    scan c cs = ⟨.ok t, [c], cs⟩ := by
  unfold scan
  rw [h]

theorem startsGap_of_bracket? {c : Char} {t : Token} (h : bracket? c = some t) :
    startsGap c = false := by
  unfold bracket? at h
  split at h <;> first | decide | cases h

theorem scan_quoting (cs : List Char) :
    scan '\'' ('(' :: cs) = ⟨.ok .quoting, ['\'', '('], cs⟩ := rfl

theorem scan_quote {d : Char} (hd : d ≠ '(') (cs : List Char) :
    scan '\'' (d :: cs) = ⟨.error (.quoteBefore d), ['\''], d :: cs⟩ := by
  simp [scan, bracket?]

theorem scan_text (cs : List Char) :
    scan '"' cs =
      ⟨(scanText cs).outcome.map fun t => .atom (.text (String.ofList t)),
        '"' :: (scanText cs).lexeme, (scanText cs).rest⟩ := by
  simp only [scan, bracket?, Scan.extend]
  cases (scanText cs).outcome <;> rfl

theorem scan_other {c : Char} (hb : bracket? c = none) (hq : c ≠ '\'') (ht : c ≠ '"')
    (cs : List Char) :
    scan c cs = if startsNumber (c :: cs) then scanNumber (c :: cs) else scanWord (c :: cs) := by
  simp [scan, hb, hq, ht]

/-- The ways a lexeme can start. -/
theorem scan_cases {motive : Char → List Char → Prop}
    (bracket : ∀ c t cs, bracket? c = some t → motive c cs)
    (quoting : ∀ cs, motive '\'' ('(' :: cs))
    (quote : ∀ d cs, d ≠ '(' → motive '\'' (d :: cs))
    (quoteAtEnd : motive '\'' [])
    (text : ∀ cs, motive '"' cs)
    (other : ∀ c cs, bracket? c = none → c ≠ '\'' → c ≠ '"' → motive c cs)
    (c : Char) (cs : List Char) : motive c cs := by
  rcases hb : bracket? c with _ | t
  · by_cases hq : c = '\''
    · subst hq
      rcases cs with _ | ⟨d, cs⟩
      · exact quoteAtEnd
      · by_cases hd : d = '('
        · subst hd
          exact quoting cs
        · exact quote d cs hd
    · by_cases ht : c = '"'
      · subst ht
        exact text cs
      · exact other c cs hb hq ht
  · exact bracket c t cs hb

theorem scan_split (c : Char) (cs : List Char) :
    (scan c cs).lexeme ++ (scan c cs).rest = c :: cs := by
  cases c, cs using scan_cases with
  | bracket c t cs hb =>
    rw [scan_bracket hb]
    rfl
  | quoting cs => rfl
  | quote d cs hd =>
    rw [scan_quote hd]
    rfl
  | quoteAtEnd => rfl
  | text cs => simp [scan_text, scanText_split]
  | other c cs hb hq ht =>
    rw [scan_other hb hq ht]
    split
    · exact splitNumeral_within.split (c :: cs)
    · exact List.takeWhile_append_dropWhile

theorem readWord_of_ne_nil {word : List Char} (h : word ≠ []) :
    readWord word = .ok (ofWord (String.ofList word)) := by
  rw [readWord, if_neg (by simpa using h)]

theorem isDelimiter_eq_false {c : Char} (h : bracket? c = none) : isDelimiter c = false := by
  unfold bracket? at h
  split at h <;> simp_all [isDelimiter]

theorem splitNumeral_ne_nil {cs : List Char} (h : startsNumber cs = true) :
    (splitNumeral cs).1 ≠ [] := by
  rcases cs with _ | ⟨c, cs⟩
  · cases h
  · simp only [startsNumber, Bool.or_eq_true, Bool.and_eq_true] at h
    simp only [splitNumeral, splitSigned, Split.andThen, Split.marked]
    rcases h with hdigit | ⟨hsign, -⟩
    · by_cases hsign : isSign c = true <;> simp [splitWhile, hsign, hdigit]
    · simp [hsign]

/-- A scan takes at least one character. -/
theorem scan_lexeme_ne_nil {c : Char} (hc : startsGap c = false) (cs : List Char) :
    (scan c cs).lexeme ≠ [] := by
  cases c, cs using scan_cases with
  | bracket c t cs hb => simp [scan_bracket hb]
  | quoting cs => simp [scan_quoting]
  | quote d cs hd => simp [scan_quote hd]
  | quoteAtEnd => simp [scan, bracket?]
  | text cs => simp [scan_text]
  | other c cs hb hq ht =>
    rw [scan_other hb hq ht]
    split
    · rename_i hnumber
      exact splitNumeral_ne_nil hnumber
    · have hw : isTerminator c = false := by
        simp only [startsGap, Bool.or_eq_false_iff, decide_eq_false_iff_not] at hc
        simp [isTerminator, hc, hq, ht, isDelimiter_eq_false hb]
      simp [scanWord, splitWhile, hw]

end Lexeme

namespace Tokens

open Lexeme

theorem length_rest_lt {cs gap ds : List Char} {c : Char}
    (h : splitGap false cs = (gap, c :: ds)) : (scan c ds).rest.length < cs.length := by
  have hgap := congrArg List.length (splitGap_split false cs)
  have hsplit := congrArg List.length (scan_split c ds)
  have hpos := List.length_pos_iff.2 (scan_lexeme_ne_nil (splitGap_head h) ds)
  simp only [h, List.length_append, List.length_cons] at hgap hsplit
  omega

theorem ofChars_of_gap {cs gap : List Char} (h : splitGap false cs = (gap, [])) (n : Nat)
    (p : Position) : ofChars n p cs = .done (p.past gap) := by
  unfold ofChars
  rw [h]
  cases n <;> rfl

theorem ofChars_of_lexeme {cs gap ds : List Char} {c : Char}
    (h : splitGap false cs = (gap, c :: ds)) (n : Nat) (p : Position) :
    ofChars (n + 1) p cs =
      match (scan c ds).outcome with
      | .ok t => .next t (p.past gap) (ofChars n ((p.past gap).past (scan c ds).lexeme)
          (scan c ds).rest)
      | .error e => .fault e ((p.past gap).past (scan c ds).lexeme) := by
  rw [ofChars]
  cases hs : (scan c ds).outcome <;> simp only [h, hs]

theorem ofChars_fuel {n m : Nat} {cs : List Char} (hn : cs.length ≤ n) (hm : cs.length ≤ m)
    (p : Position) : ofChars n p cs = ofChars m p cs := by
  induction n generalizing m cs p with
  | zero =>
    have hnil : cs = [] := List.length_eq_zero_iff.1 (Nat.le_zero.1 hn)
    subst hnil
    rw [ofChars_of_gap rfl, ofChars_of_gap rfl]
  | succ n ih =>
    rcases hg : splitGap false cs with ⟨gap, _ | ⟨c, ds⟩⟩
    · rw [ofChars_of_gap hg, ofChars_of_gap hg]
    · have hlt := length_rest_lt hg
      obtain ⟨m, rfl⟩ : ∃ k, m = k + 1 := ⟨m - 1, by omega⟩
      rw [ofChars_of_lexeme hg, ofChars_of_lexeme hg, ih (by omega) (m := m) (by omega)]

/-- The tokens of a text that stands at a place. -/
def ofText (p : Position) (cs : List Char) : Tokens := ofChars cs.length p cs

theorem ofString_eq (s : String) : ofString s = ofText .start s.toList := rfl

theorem ofText_of_gap {cs gap : List Char} (h : splitGap false cs = (gap, [])) (p : Position) :
    ofText p cs = .done (p.past gap) := ofChars_of_gap h _ p

theorem ofText_of_lexeme {cs gap ds : List Char} {c : Char}
    (h : splitGap false cs = (gap, c :: ds)) (p : Position) :
    ofText p cs =
      match (scan c ds).outcome with
      | .ok t => .next t (p.past gap) (ofText ((p.past gap).past (scan c ds).lexeme)
          (scan c ds).rest)
      | .error e => .fault e ((p.past gap).past (scan c ds).lexeme) := by
  have hlt := length_rest_lt h
  obtain ⟨n, hn⟩ : ∃ n, cs.length = n + 1 := ⟨cs.length - 1, by omega⟩
  unfold ofText
  rw [hn, ofChars_of_lexeme h, ofChars_fuel (by omega) le_rfl]

theorem ofText_past_gap {cs gap ds : List Char}
    (h : splitGap false cs = (gap ++ (splitGap false ds).1, (splitGap false ds).2)) (p : Position) :
    ofText p cs = ofText (p.past gap) ds := by
  rcases hg : splitGap false ds with ⟨g, _ | ⟨c, es⟩⟩
  · rw [hg] at h
    rw [ofText_of_gap h, ofText_of_gap hg, Position.past_append]
  · rw [hg] at h
    rw [ofText_of_lexeme h, ofText_of_lexeme hg, Position.past_append]

theorem ofText_blank (p : Position) (cs : List Char) :
    ofText p (' ' :: cs) = ofText (p.next ' ') cs :=
  @ofText_past_gap (' ' :: cs) [' '] cs rfl p

theorem ofText_of_scan {c : Char} {cs lexeme rest : List Char} {t : Token}
    (hc : startsGap c = false) (h : scan c cs = ⟨.ok t, lexeme, rest⟩) (p : Position) :
    ofText p (c :: cs) = .next t p (ofText (p.past lexeme) rest) := by
  rw [ofText_of_lexeme (splitGap_of_head hc cs), h]
  rfl

theorem ofText_bracket {c : Char} {t : Token} (h : bracket? c = some t) (p : Position)
    (cs : List Char) : ofText p (c :: cs) = .next t p (ofText (p.next c) cs) :=
  ofText_of_scan (startsGap_of_bracket? h) (scan_bracket h cs) p

/-- Induction along the lexemes of a text. -/
theorem text_induction {motive : List Char → Prop}
    (gap : ∀ cs gap, splitGap false cs = (gap, []) → motive cs)
    (lexeme : ∀ cs gap c ds, splitGap false cs = (gap, c :: ds) → motive (scan c ds).rest →
      motive cs) (cs : List Char) : motive cs := by
  induction hn : cs.length using Nat.strongRecOn generalizing cs with
  | _ n ih =>
    rcases hg : splitGap false cs with ⟨g, _ | ⟨c, ds⟩⟩
    · exact gap cs g hg
    · exact lexeme cs g c ds hg (ih _ (hn ▸ length_rest_lt hg) _ rfl)

end Tokens

end Lisplet
