import Lisplet.Proofs.Lines
import Lisplet.Proofs.Steps
import Mathlib

/-!
What more text can do for whole lines that do not read. The fault says it: where it counts as
incomplete some continuation makes the text read, and any other fault stays, at its place, whatever
follows.
-/

namespace Lisplet

namespace Reading

/-! More tokens behind a fault that is not incomplete, and behind one that is. -/

theorem forms_continued {file : String} {state : State} {tokens : Tokens} {e : ReadError}
    (h : (forms file state tokens).2 = some e) (he : e.fault.isIncomplete = false)
    (after : Position → Tokens) (mended : Tokens) :
    (forms file state (tokens.continued after mended)).2 = some e := by
  induction tokens generalizing state with
  | done p =>
    obtain ⟨fault, hfault, rfl⟩ := Option.map_eq_some_iff.1 h
    simp [atEnd_isIncomplete hfault] at he
  | fault cause p =>
    obtain rfl := Option.some.inj h
    have hcause : cause.isIncomplete = false := he
    simp [Tokens.continued, hcause, forms]
  | next token p rest ih =>
    rw [forms_next_snd] at h
    rw [Tokens.continued, forms_next_snd]
    cases hs : step ⟨file, p⟩ state token with
    | error fault => rwa [hs] at h
    | ok s =>
      rw [hs] at h
      exact ih h

theorem forms_incomplete {file : String} {state : State} {tokens : Tokens} {e : ReadError}
    (h : (forms file state tokens).2 = some e) (he : e.fault.isIncomplete = true) :
    ∃ reached, (∃ p, ∀ after mended, (forms file state (tokens.continued after mended)).2 =
        (forms file reached (after p)).2) ∨
      ∀ after mended, (forms file state (tokens.continued after mended)).2 =
        (forms file reached mended).2 := by
  induction tokens generalizing state with
  | done p => exact ⟨state, .inl ⟨p, fun _ _ => rfl⟩⟩
  | fault cause p =>
    obtain rfl := Option.some.inj h
    have hcause : cause.isIncomplete = true := he
    exact ⟨state, .inr fun _ _ => by simp [Tokens.continued, hcause]⟩
  | next token p rest ih =>
    rw [forms_next_snd] at h
    cases hs : step ⟨file, p⟩ state token with
    | error fault =>
      rw [hs] at h
      obtain rfl := Option.some.inj h
      simp [step_isIncomplete hs] at he
    | ok s =>
      rw [hs] at h
      obtain ⟨reached, hr⟩ := ih h
      simp only [Tokens.continued, forms_next_snd, hs]
      exact ⟨reached, hr⟩

/-! Every state can take an atom, and behind it the brackets that are open can be closed. -/

def Frame.closer : Frame → Char
  | call .. | quoted .. => ')'
  | vector _ => ']'
  | entry .. => '\x7d'

/-- A text that completes the reading once the state has taken an atom. An atom that becomes a key
needs a value behind it. -/
def State.completion : State → List Char
  | form outer => outer.map Frame.closer
  | key _ outer => '"' :: '"' :: '\x7d' :: outer.map Frame.closer

theorem ofText_empty_text (p : Position) (cs : List Char) :
    Tokens.ofText p ('"' :: '"' :: cs) =
      .next (.atom (.text "")) p (.ofText (p.past ['"', '"']) cs) :=
  Tokens.ofText_of_scan (by decide) rfl p

theorem forms_closers (file : String) (form : Form) (outer : List Frame) (p : Position) :
    (forms file (place form outer).next (.ofText p (outer.map Frame.closer))).2 = none := by
  induction outer generalizing form p with
  | nil => rfl
  | cons frame outer ih =>
    cases frame
    all_goals
      rw [List.map_cons, Frame.closer, Tokens.ofText_bracket rfl, forms_next_snd]
      exact ih _ _

theorem forms_completion (file : String) (state : State) (a : Atom) (p q : Position) :
    (forms file state (.next (.atom a) p (.ofText q state.completion))).2 = none := by
  rw [forms_next_snd]
  cases state with
  | form outer => exact forms_closers file (.atom a) outer q
  | key entries outer =>
    rw [State.completion, ofText_empty_text]
    exact (forms_next_snd ..).trans
      (forms_closers file (.atom (.text "")) (.entry entries a :: outer) _)

end Reading

/-- Whole lines that do not read. An incomplete fault is one that more text can mend, and every
other fault is final. -/
theorem incomplete_iff_mendable (file text : String) (e : ReadError)
    (h : parse file (text ++ "\n") = .error e) :
    (e.fault.isIncomplete = true →
      ∃ more forms, parse file (text ++ "\n" ++ more) = .ok forms) ∧
    (e.fault.isIncomplete = false →
      ∀ more, parse file (text ++ "\n" ++ more) = .error e) := by
  have hl : Lexeme.WholeLines (text ++ "\n").toList := .inr (by simp [Lexeme.EndsLine])
  have htokens : ∀ more : String, ∃ mended,
      Tokens.ofString (text ++ "\n" ++ more) = (Tokens.ofString (text ++ "\n")).continued
        (.ofText · more.toList) mended ∧ ∀ more', more.toList = '"' :: more' →
          ∃ t q q', mended = .next (.atom (.text t)) q (.ofText q' more') := by
    intro more
    simp only [Tokens.ofString_eq]
    rw [String.toList_append]
    exact Tokens.ofText_append hl .start more.toList
  rw [parse_eq_error_iff] at h
  constructor
  · intro he
    obtain ⟨reached, ⟨p, hr⟩ | hr⟩ := Reading.forms_incomplete h he
    · refine ⟨.ofList ('"' :: '"' :: reached.completion), exists_parse_eq_ok_iff.2 ?_⟩
      obtain ⟨mended, heq, -⟩ := htokens (.ofList ('"' :: '"' :: reached.completion))
      rw [readForms, heq, hr, String.toList_ofList, Reading.ofText_empty_text]
      exact Reading.forms_completion ..
    · refine ⟨.ofList ('"' :: reached.completion), exists_parse_eq_ok_iff.2 ?_⟩
      obtain ⟨mended, heq, hquote⟩ := htokens (.ofList ('"' :: reached.completion))
      obtain ⟨t, q, q', rfl⟩ := hquote _ String.toList_ofList
      rw [readForms, heq, hr]
      exact Reading.forms_completion ..
  · intro he more
    obtain ⟨mended, heq, -⟩ := htokens more
    rw [parse_eq_error_iff, readForms, heq]
    exact Reading.forms_continued h he _ _

theorem incomplete_iff_mendable_line :
    parse "repl" ("(f [\"a" ++ "\n") = .error ⟨.lex .openText, "repl", 2, 1⟩ ∧
    (∃ more forms, parse "repl" ("(f [\"a" ++ "\n" ++ more) = .ok forms) ∧
    parse "repl" ("(f [a)" ++ "\n") = .error ⟨.unexpected .round, "repl", 1, 6⟩ ∧
    ∀ more,
      parse "repl" ("(f [a)" ++ "\n" ++ more) = .error ⟨.unexpected .round, "repl", 1, 6⟩ := by
  have hopen : parse "repl" ("(f [\"a" ++ "\n") = .error ⟨.lex .openText, "repl", 2, 1⟩ := by cbv
  have hclosed : parse "repl" ("(f [a)" ++ "\n") = .error ⟨.unexpected .round, "repl", 1, 6⟩ := by
    cbv
  exact ⟨hopen, (incomplete_iff_mendable _ _ _ hopen).1 rfl, hclosed,
    (incomplete_iff_mendable _ _ _ hclosed).2 rfl⟩

end Lisplet
