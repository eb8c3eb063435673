import Lisplet.Proofs.Lexing

/-!
Whole lines. A text that ends in a newline keeps its tokens when more text follows, up to its end or
up to a text in quotes that is still open: nothing else can reach over a newline.
-/

namespace Lisplet

namespace Lexeme

def EndsLine (cs : List Char) : Prop := cs.getLast? = some '\n'

theorem EndsLine.of_append {cs ds : List Char} (h : EndsLine (cs ++ ds)) (hd : ds ≠ []) :
    EndsLine ds := by
  unfold EndsLine at h ⊢
  rwa [List.getLast?_append, List.getLast?_eq_some_getLast hd, Option.some_or,
    ← List.getLast?_eq_some_getLast hd] at h

theorem EndsLine.cons {c : Char} {cs : List Char} (h : EndsLine (c :: cs)) :
    EndsLine cs ∨ cs = [] ∧ c = '\n' := by
  cases cs with
  | nil => exact .inr ⟨rfl, by simpa [EndsLine] using h⟩
  | cons d ds =>
    have hs : EndsLine ([c] ++ (d :: ds)) := h
    exact .inl (hs.of_append nofun)

/-- The text is a number of whole lines. -/
def WholeLines (cs : List Char) : Prop := cs = [] ∨ EndsLine cs

theorem WholeLines.of_append {cs ds : List Char} (h : WholeLines (cs ++ ds)) : WholeLines ds := by
  by_cases hd : ds = []
  · exact .inl hd
  · rcases h with h | h
    · exact .inl (List.append_eq_nil_iff.1 h).2
    · exact .inr (h.of_append hd)

theorem EndsLine.ne_nil {cs as bs : List Char} (h : EndsLine cs) (hs : as ++ bs = cs)
    (ha : ∀ c ∈ as, c ≠ '\n') : bs ≠ [] := by
  rintro rfl
  rw [List.append_nil] at hs
  subst hs
  exact ha _ (List.mem_of_getLast? h) rfl

theorem splitGap_append {inComment : Bool} {cs gap rest : List Char} {c : Char}
    (h : splitGap inComment cs = (gap, c :: rest)) (more : List Char) :
    splitGap inComment (cs ++ more) = (gap, c :: rest ++ more) := by
  induction cs generalizing inComment gap with
  | nil => cases inComment <;> cases h
  | cons d cs ih =>
    cases inComment with
    | true =>
      simp only [splitGap, Prod.mk.injEq] at h
      simp only [List.cons_append, splitGap, ih (Prod.ext rfl h.2), h.1]
    | false =>
      simp only [splitGap] at h
      simp only [List.cons_append, splitGap]
      split at h
      · rename_i hd
        simp only [Prod.mk.injEq] at h
        simp only [hd, if_true, ih (Prod.ext rfl h.2), h.1]
        rfl
      · rename_i hd
        simp only [Prod.mk.injEq, List.cons.injEq] at h
        obtain ⟨rfl, rfl, rfl⟩ := h
        simp [hd]

/-- A gap that ends with its line goes on with the gap of the next line. -/
theorem splitGap_append_line {inComment : Bool} {cs gap : List Char}
    (h : splitGap inComment cs = (gap, [])) (hl : EndsLine cs ∨ cs = [] ∧ inComment = false)
    (more : List Char) :
    splitGap inComment (cs ++ more) = (cs ++ (splitGap false more).1, (splitGap false more).2) := by
  induction cs generalizing inComment gap with
  | nil =>
    rcases hl with hl | ⟨-, rfl⟩
    · cases hl
    · rfl
  | cons d cs ih =>
    have hl' : EndsLine cs ∨ cs = [] ∧ d = '\n' := (hl.resolve_right (by simp)).cons
    cases inComment with
    | true =>
      simp only [splitGap, Prod.mk.injEq] at h
      have hnext := ih (Prod.ext rfl h.2) (hl'.imp_right fun h => ⟨h.1, by simp [h.2]⟩)
      simp only [List.cons_append, splitGap, hnext]
    | false =>
      simp only [splitGap] at h
      split at h
      · rename_i hd
        simp only [Prod.mk.injEq] at h
        have hnext := ih (Prod.ext rfl h.2) (hl'.imp_right fun h => ⟨h.1, by simp [h.2]⟩)
        simp only [List.cons_append, splitGap, hd, if_true, hnext]
      · cases h

/-- The scan with more text behind it. -/
def Scan.before {α : Type} (s : Scan α) (more : List Char) : Scan α :=
  { s with rest := s.rest ++ more }

theorem Scan.extend_before {α : Type} (s : Scan α) (cs more : List Char) (f : α → α) :
    (s.before more).extend cs f = (s.extend cs f).before more := rfl

theorem Scan.outcome_extend {α : Type} {s : Scan α} {cs : List Char} {f : α → α} {e : LexFault} :
    (s.extend cs f).outcome = .error e ↔ s.outcome = .error e := by
  cases hs : s.outcome <;> simp [extend, hs, Except.map]

/-- Text in quotes that ends keeps its end. -/
theorem scanText_append (cs more : List Char)
    (h : ∀ e, (scanText cs).outcome = .error e → e.isIncomplete = false) :
    scanText (cs ++ more) = (scanText cs).before more := by
  fun_induction scanText cs with
  | case1 => cases h _ rfl
  | case2 cs => rfl
  | case3 => cases h _ rfl
  | case4 c cs u hu ih =>
    have hrest := ih fun e he => h e (Scan.outcome_extend.2 he)
    simp only [List.cons_append, scanText, hu, hrest, Scan.extend_before]
  | case5 c cs hu => simp only [List.cons_append, scanText, hu, Scan.before]
  | case6 c cs hq hb hb' ih =>
    have hrest := ih fun e he => h e (Scan.outcome_extend.2 he)
    have hne : c ≠ '\\' := by
      intro hc
      cases cs with
      | nil => exact hb hc rfl
      | cons d ds => exact hb' d ds hc rfl
    rw [List.cons_append, scanText_plain hq hne, hrest, Scan.extend_before]

/-- Text that is still open where a line ends is closed by the next quote. -/
theorem scanText_close {cs : List Char} (hl : EndsLine cs ∨ cs = []) {e : LexFault}
    (h : (scanText cs).outcome = .error e) (he : e.isIncomplete = true) :
    ∃ t, ∀ more, scanText (cs ++ '"' :: more) = ⟨.ok t, cs ++ ['"'], more⟩ := by
  have hnext {c : Char} {cs : List Char} (hl : EndsLine (c :: cs) ∨ c :: cs = []) :
      EndsLine cs ∨ cs = [] := hl.elim (fun h => h.cons.imp_right And.left) nofun
  fun_induction scanText cs with
  | case1 => exact ⟨[], fun _ => rfl⟩
  | case2 cs => cases h
  | case3 =>
    rcases hl with hl | hl <;> cases hl
  | case4 c cs u hu ih =>
    obtain ⟨t, ht⟩ := ih (hnext (hnext hl)) (Scan.outcome_extend.1 h)
    refine ⟨u :: t, fun more => ?_⟩
    simp only [List.cons_append, scanText, hu, ht]
    rfl
  | case5 c cs hu =>
    cases h
    cases he
  | case6 c cs hq hb hb' ih =>
    obtain ⟨t, ht⟩ := ih (hnext hl) (Scan.outcome_extend.1 h)
    have hne : c ≠ '\\' := by
      intro hc
      cases cs with
      | nil => exact hb hc rfl
      | cons d ds => exact hb' d ds hc rfl
    refine ⟨c :: t, fun more => ?_⟩
    rw [List.cons_append, scanText_plain hq hne, ht]
    rfl

theorem newline_not_numeric {c : Char} (h : Number.isNumeric c = true) : c ≠ '\n' := by
  rintro rfl
  cases h

theorem startsNumber_append {c : Char} {cs : List Char} (hl : EndsLine (c :: cs))
    (more : List Char) : startsNumber (c :: cs ++ more) = startsNumber (c :: cs) := by
  rcases cs with _ | ⟨d, cs⟩
  · obtain ⟨-, rfl⟩ := hl.cons.resolve_left nofun
    rfl
  · rfl

theorem scanNumber_append {cs : List Char} (hl : EndsLine cs) (more : List Char) :
    scanNumber (cs ++ more) = (scanNumber cs).before more := by
  have hne : (splitNumeral cs).2 ≠ [] := hl.ne_nil (splitNumeral_within.split cs) fun c hc =>
    newline_not_numeric (splitNumeral_within.all cs c hc)
  obtain ⟨d, ds, hd⟩ := List.exists_cons_of_ne_nil hne
  simp only [scanNumber, splitNumeral_within.append cs more (.inl hne), Scan.before, hd]
  rfl

theorem scanWord_append {cs : List Char} (hl : EndsLine cs) (more : List Char) :
    scanWord (cs ++ more) = (scanWord cs).before more := by
  have hw : Split.Within (!isTerminator ·) (splitWhile (!isTerminator ·)) :=
    .splitWhile fun _ h => h
  have hne : (splitWhile (!isTerminator ·) cs).2 ≠ [] := hl.ne_nil (hw.split cs) fun c hc hn => by
    have hterm := hw.all cs c hc
    rw [hn] at hterm
    cases hterm
  simp only [scanWord, hw.append cs more (.inl hne), Scan.before]

/-- Whatever else a line holds is not changed by the text behind the line. -/
theorem scan_append {c : Char} {cs : List Char} (hl : EndsLine (c :: cs))
    (h : ∀ e, (scan c cs).outcome = .error e → e.isIncomplete = false) (more : List Char) :
    scan c (cs ++ more) = (scan c cs).before more := by
  cases c, cs using scan_cases with
  | bracket c t cs hb =>
    rw [scan_bracket hb, scan_bracket hb]
    rfl
  | quoting cs => rfl
  | quote d cs hd =>
    rw [scan_quote hd, List.cons_append, scan_quote hd]
    rfl
  | quoteAtEnd => cases hl
  | text cs =>
    rw [scan_text, scan_text, scanText_append]
    · rfl
    · intro e he
      exact h e (by simp [scan_text, he, Except.map])
  | other c cs hb hq ht =>
    rw [scan_other hb hq ht, scan_other hb hq ht, ← List.cons_append, startsNumber_append hl]
    split
    · exact scanNumber_append hl more
    · exact scanWord_append hl more

/-- The only lexeme that a line can leave open is text in quotes. -/
theorem scan_close {c : Char} {cs : List Char} (hl : EndsLine (c :: cs)) {e : LexFault}
    (h : (scan c cs).outcome = .error e) (he : e.isIncomplete = true) :
    ∃ t, ∀ more, scan c (cs ++ '"' :: more) = ⟨.ok (.atom (.text t)), c :: cs ++ ['"'], more⟩ := by
  cases c, cs using scan_cases with
  | bracket c t cs hb =>
    rw [scan_bracket hb] at h
    cases h
  | quoting cs => cases h
  | quote d cs hd =>
    rw [scan_quote hd] at h
    cases h
    cases he
  | quoteAtEnd => cases hl
  | text cs =>
    have hopen : (scanText cs).outcome = .error e := by
      rw [scan_text] at h
      cases ho : (scanText cs).outcome <;> simp_all [Except.map]
    obtain ⟨t, ht⟩ := scanText_close (hl.cons.imp_right And.left) hopen he
    refine ⟨String.ofList t, fun more => ?_⟩
    rw [scan_text, ht]
    rfl
  | other c cs hb hq ht =>
    rw [scan_other hb hq ht] at h
    split at h
    · simp only [scanNumber, readNumeral] at h
      split at h <;> cases h <;> cases he
    · simp only [scanWord, readWord] at h
      split at h <;> cases h
      cases he

end Lexeme

namespace Tokens

open Lexeme

/-- The tokens with others in place of their end, or of a fault that more text may mend. -/
def continued : Tokens → (after : Position → Tokens) → (mended : Tokens) → Tokens
  | done p, after, _ => after p
  | fault e p, _, mended => if e.isIncomplete then mended else fault e p
  | next t p rest, after, mended => next t p (rest.continued after mended)

theorem ofText_gap_append {cs gap : List Char} (h : splitGap false cs = (gap, []))
    (hl : WholeLines cs) (p : Position) (more : List Char) :
    ofText p (cs ++ more) = ofText (p.past cs) more :=
  ofText_past_gap (splitGap_append_line h (hl.symm.imp_right fun h => ⟨h, rfl⟩) more) p

/-- More text behind whole lines leaves their tokens as they are. A text left open by them is closed
if the new text starts with a quote. -/
theorem ofText_append {cs : List Char} (hl : WholeLines cs) (p : Position) (more : List Char) :
    ∃ mended, ofText p (cs ++ more) = (ofText p cs).continued (ofText · more) mended ∧
      ∀ more', more = '"' :: more' →
        ∃ t q q', mended = .next (.atom (.text t)) q (ofText q' more') := by
  induction cs using text_induction generalizing p with
  | gap cs gap hg =>
    refine ⟨.next (.atom (.text "")) p (ofText p more.tail), ?_, ?_⟩
    · have hgap := splitGap_split false cs
      simp only [hg, List.append_nil] at hgap
      subst hgap
      rw [ofText_gap_append hg hl, ofText_of_gap hg]
      rfl
    · rintro more' rfl
      exact ⟨"", p, p, rfl⟩
  | lexeme cs gap c ds hg ih =>
    have hgap := splitGap_split false cs
    rw [hg] at hgap
    have hcs : EndsLine (c :: ds) :=
      (WholeLines.of_append (hgap ▸ hl)).resolve_left nofun
    have hrest : WholeLines (scan c ds).rest :=
      @WholeLines.of_append (scan c ds).lexeme _ (by rw [scan_split]; exact .inr hcs)
    have hmore := splitGap_append hg more
    rw [List.cons_append] at hmore
    rw [ofText_of_lexeme hmore, ofText_of_lexeme hg]
    cases ho : (scan c ds).outcome with
    | ok t =>
      obtain ⟨mended, heq, hquote⟩ := ih hrest ((p.past gap).past (scan c ds).lexeme)
      refine ⟨mended, ?_, hquote⟩
      rw [scan_append hcs (by rw [ho]; exact fun _ => nofun) more]
      simp only [Scan.before, ho, continued, heq]
    | error e =>
      cases he : e.isIncomplete with
      | false =>
        refine ⟨.next (.atom (.text "")) p (ofText p more.tail), ?_, ?_⟩
        · rw [scan_append hcs (by rw [ho]; rintro _ ⟨⟩; exact he) more]
          simp [Scan.before, ho, continued, he]
        · rintro more' rfl
          exact ⟨"", p, p, rfl⟩
      | true =>
        refine ⟨_, by simp only [continued, he, if_true]; rfl, ?_⟩
        rintro more' rfl
        obtain ⟨t, ht⟩ := scan_close hcs ho he
        rw [ht]
        exact ⟨t, _, _, rfl⟩

end Tokens

end Lisplet
