import Lisplet.Proofs.Continuation
import Lisplet.Proofs.Places
import Lisplet.Shell.Prompt

/-!
Gathering lines at the prompt. Whole lines that read can be read on their own: what follows them is
read as if it stood alone, further down. So however the prompt cuts a text into batches, line by
line, it evaluates the forms of the text, each once and in order.
-/

namespace Lisplet

namespace Tokens

def final? : Tokens → Option Position
  | done p => some p
  | fault _ _ => none
  | next _ _ rest => rest.final?

theorem ofText_final? {p q : Position} {cs : List Char} (h : (ofText p cs).final? = some q) :
    q = p.past cs := by
  induction cs using text_induction generalizing p with
  | gap cs gap hg =>
    obtain rfl : gap = cs := by
      simpa only [hg, List.append_nil] using Lexeme.splitGap_split false cs
    rw [ofText_of_gap hg] at h
    exact (Option.some.inj h).symm
  | lexeme cs gap c ds hg ih =>
    have hsplit : gap ++ c :: ds = cs := by simpa only [hg] using Lexeme.splitGap_split false cs
    rw [ofText_of_lexeme hg] at h
    cases ho : (Lexeme.scan c ds).outcome with
    | error e => simp only [ho, final?, reduceCtorEq] at h
    | ok t =>
      simp only [ho, final?] at h
      rw [ih h, ← Position.past_append, ← Position.past_append, Lexeme.scan_split, hsplit]

end Tokens

namespace Reading

variable {file : String}

/-- Tokens that are read without fault reach the end of the text, and more tokens behind them are
read as they would be alone. -/
theorem forms_continued_of_none {state : State} {tokens : Tokens}
    (h : (forms file state tokens).2 = none) :
    ∃ p, tokens.final? = some p ∧ ∀ after mended,
      (forms file state (tokens.continued after mended)).2 =
        (forms file (.form []) (after p)).2 ∧
      ((forms file (.form []) (after p)).2 = none →
        (forms file state (tokens.continued after mended)).1 =
          (forms file state tokens).1 ++ (forms file (.form []) (after p)).1) := by
  induction tokens generalizing state with
  | done p =>
    obtain rfl : state = .form [] := by
      rcases state with (_ | ⟨frame, outer⟩) | _
      · rfl
      · cases h
      · cases h
    exact ⟨p, rfl, fun after mended => ⟨rfl, fun _ => rfl⟩⟩
  | fault cause p => cases h
  | next token p rest ih =>
    rw [forms_next_snd] at h
    cases hs : step ⟨file, p⟩ state token with
    | error fault =>
      rw [hs] at h
      cases h
    | ok s =>
      rw [hs] at h
      obtain ⟨q, hq, hrest⟩ := ih h
      refine ⟨q, hq, fun after mended => ?_⟩
      obtain ⟨hsnd, hfst⟩ := hrest after mended
      refine ⟨?_, fun hnone => ?_⟩
      · rw [Tokens.continued, forms_next_snd, hs]
        exact hsnd
      · rw [Tokens.continued, forms_next, forms_next, hs]
        cases s with
        | more state => exact hfst hnone
        | done form =>
          change (resume file (.done form) _).1 = (resume file (.done form) rest).1 ++ _
          rw [resume_done form h, resume_done form (hsnd.trans hnone), List.cons_append]
          exact congrArg (form :: ·) (hfst hnone)

end Reading

theorem Lexeme.EndsLine.past {cs : List Char} (h : EndsLine cs) :
    Position.start.past cs = Position.start.down (cs.count '\n') := by
  obtain ⟨ds, rfl⟩ : ∃ ds, cs = ds ++ ['\n'] := List.getLast?_eq_some_iff.1 h
  have hline := Position.line_past .start (ds ++ ['\n'])
  rw [Position.past_append] at hline ⊢
  exact congrArg (Position.mk · 1) hline

theorem endsLine_append_newline (text : String) : Lexeme.EndsLine (text ++ "\n").toList := by
  simp [Lexeme.EndsLine]

def lineCount (text : String) : Nat := text.toList.count '\n'

/-- More text behind lines that read: it is read as if it stood alone, that many lines down. -/
theorem parse_append {file text : String} {forms : List Form}
    (h : parse file (text ++ "\n") = .ok forms) (more : String) :
    parse file (text ++ "\n" ++ more) =
      match parse file more with
      | .ok behind =>
        .ok (forms ++ behind.map (Form.relocate (.down (lineCount (text ++ "\n")))))
      | .error e => .error (e.relocate (.down (lineCount (text ++ "\n")))) := by
  have hl := endsLine_append_newline text
  have hread := parse_eq_ok_iff.1 h
  obtain ⟨p, hp, hrest⟩ := Reading.forms_continued_of_none (congrArg Prod.snd hread)
  obtain rfl := Tokens.ofText_final? hp
  obtain ⟨mended, htokens, -⟩ := Tokens.ofText_append (.inr hl) .start more.toList
  rw [← String.toList_append] at htokens
  obtain ⟨hsnd, hfst⟩ := hrest (.ofText · more.toList) mended
  rw [hl.past, forms_down] at hsnd hfst
  rw [Tokens.ofString_eq, ← htokens] at hsnd hfst
  cases hmore : (readForms file more).2 with
  | some e =>
    rw [parse_eq_error_iff.2 hmore]
    rw [hmore] at hsnd
    exact parse_eq_error_iff.2 hsnd
  | none =>
    rw [parse_eq_ok_iff.2 (Prod.ext rfl hmore)]
    rw [hmore] at hsnd hfst
    refine parse_eq_ok_iff.2 (Prod.ext ((hfst rfl).trans ?_) hsnd)
    rw [← Tokens.ofString_eq]
    exact congrArg (· ++ _) (congrArg Prod.fst hread)

theorem parse_append_error {file text : String} {e : ReadError}
    (h : parse file (text ++ "\n") = .error e) (he : e.fault.isIncomplete = false)
    (more : String) : parse file (text ++ "\n" ++ more) = .error e := by
  obtain ⟨mended, htokens, -⟩ :=
    Tokens.ofText_append (.inr (endsLine_append_newline text)) .start more.toList
  rw [parse_eq_error_iff] at h ⊢
  rw [readForms, Tokens.ofString_eq, String.toList_append, htokens]
  exact Reading.forms_continued h he _ _

namespace Text

theorem isBlank_of_trim {s : String} (h : trim s = "") : ∀ c ∈ s.toList, isBlank c = true := by
  have htrim : trimRight (trimLeft s.toList) = [] := by
    simpa [trim] using congrArg String.toList h
  have hleft : trimLeft s.toList = [] := by
    -- what is left of a text after trimming does not start with a blank
    have hall : ∀ c ∈ trimLeft s.toList, isBlank c = true := by
      simpa [trimRight] using htrim
    cases hc : trimLeft s.toList with
    | nil => rfl
    | cons c cs =>
      have hhead := List.head?_dropWhile_not isBlank s.toList
      rw [hc] at hall
      unfold trimLeft at hc
      rw [hc] at hhead
      simp [hall c] at hhead
  simpa [trimLeft] using hleft

end Text

theorem parse_of_trim {file text : String} (h : Text.trim text = "") :
    parse file text = .ok [] := by
  have hgap {cs : List Char} (hcs : ∀ c ∈ cs, Text.isBlank c = true) :
      Lexeme.splitGap false cs = (cs, []) := by
    induction cs with
    | nil => rfl
    | cons c cs ih =>
      have hsemi : (c == ';') = false := by
        rw [beq_eq_false_iff_ne]
        rintro rfl
        exact absurd (hcs ';' (by simp)) (by decide)
      simp [Lexeme.splitGap, hcs c, hsemi, ih fun d hd => hcs d (by simp [hd])]
  rw [parse_eq_ok_iff, readForms, Tokens.ofString_eq,
    Tokens.ofText_of_gap (hgap (Text.isBlank_of_trim h))]
  rfl

namespace Prompt

def textOf : List String → String
  | [] => ""
  | line :: lines => line ++ "\n" ++ textOf lines

/-- What the prompt does in the session, one thing after another. -/
inductive Event
  /-- Asks for a line, with this text gathered so far. -/
  | asks (buffer : String)
  | evaluates (forms : List Form)
  | reports (e : ReadError)

/-- A batch is run as a program is, and one line shows its value or failure. -/
def Event.perform (config : Config) (s : Session) : Event → Session
  | asks buffer => { s with output := s.output ++ if buffer = "" then "splike> " else "   ...> " }
  | evaluates forms =>
    match config.runForms forms s with
    | .ok v t => t.write .output (t.heap.inspect v)
    | .error e t => t.write .diagnostics (reportText e)
  | reports e => s.write .diagnostics (reportText (.ofCause (.unreadable e)))

def Event.batch? : Event → Option (List Form)
  | evaluates forms => some forms
  | _ => none

def Intake.event? : Intake → Option Event
  | ready forms => some (.evaluates forms)
  | refused e => some (.reports e)
  | _ => none

/-- The text that waits to see more lines. -/
def Intake.kept (text : String) : Intake → String
  | waiting => text
  | _ => ""

/-- Everything the prompt does with lines, given the text gathered before. -/
def events (buffer : String) : List String → List Event
  | [] => [.asks buffer]
  | line :: lines =>
    let text := buffer ++ line ++ "\n"
    .asks buffer :: ((intake text).event?.toList ++ events ((intake text).kept text) lines)

def leftOver (buffer : String) : List String → String
  | [] => buffer
  | line :: lines =>
    let text := buffer ++ line ++ "\n"
    leftOver ((intake text).kept text) lines

def batches (lines : List String) : List (List Form) := (events "" lines).filterMap Event.batch?

theorem State.feed_eq (config : Config) (st : State) (line : String) :
    st.feed config line =
      ⟨(intake (st.buffer ++ line ++ "\n")).event?.toList.foldl (Event.perform config) st.session,
        (intake (st.buffer ++ line ++ "\n")).kept (st.buffer ++ line ++ "\n")⟩ := by
  unfold feed
  dsimp only
  cases intake (st.buffer ++ line ++ "\n") <;> rfl

theorem State.feedAll_eq (config : Config) (st : State) (lines : List String) :
    st.feedAll config lines =
      ⟨(events st.buffer lines).foldl (Event.perform config) st.session,
        leftOver st.buffer lines⟩ := by
  unfold feedAll
  induction lines generalizing st with
  | nil => rfl
  | cons line lines ih =>
    have hbuffer : st.showPrompt.buffer = st.buffer := rfl
    have hsession : st.showPrompt.session = (Event.asks st.buffer).perform config st.session := rfl
    rw [List.foldl_cons, ih, State.feed_eq, hbuffer, hsession, events, leftOver, List.foldl_cons,
      List.foldl_append]

/-- What an intake says about the text: it reads as the batch, or it does not read. -/
def Intake.Describes (text : String) : Intake → Prop
  | blank => parse file text = .ok []
  | waiting => ∃ e, parse file text = .error e
  | refused e => parse file text = .error e ∧ e.fault.isIncomplete = false
  | ready forms => parse file text = .ok forms

theorem intake_describes (text : String) : (intake text).Describes text := by
  unfold intake
  split
  · rename_i hblank
    exact parse_of_trim hblank
  · cases hp : parse file text with
    | ok forms => exact hp
    | error e =>
      cases he : e.fault.isIncomplete with
      | true =>
        simp only [he, if_true]
        exact ⟨e, hp⟩
      | false =>
        simp only [he, Bool.false_eq_true, if_false]
        exact ⟨hp, he⟩

theorem parse_textOf_behind {text : String} {lines : List String} {read forms : List Form}
    (hread : parse file (text ++ "\n") = .ok read)
    (h : parse file (text ++ "\n" ++ textOf lines) = .ok forms) :
    ∃ behind, parse file (textOf lines) = .ok behind ∧
      forms.map Form.unplaced = read.map Form.unplaced ++ behind.map Form.unplaced := by
  rw [parse_append hread] at h
  cases hb : parse file (textOf lines) with
  | error e =>
    rw [hb] at h
    cases h
  | ok behind =>
    rw [hb] at h
    cases h
    exact ⟨behind, rfl, by rw [List.map_append, Form.map_unplaced_relocate]⟩

/-- Text gathered so far that does not read, followed by lines with which it does. -/
theorem gather {buffer : String} {lines : List String} {forms : List Form}
    (hopen : buffer = "" ∨ ∃ e, parse file buffer = .error e)
    (h : parse file (buffer ++ textOf lines) = .ok forms) :
    (∀ e, .reports e ∉ events buffer lines) ∧ leftOver buffer lines = "" ∧
    ((events buffer lines).filterMap Event.batch?).flatten.map Form.unplaced =
      forms.map Form.unplaced := by
  induction lines generalizing buffer forms with
  | nil =>
    rw [textOf, String.append_empty] at h
    obtain rfl : buffer = "" := by
      rcases hopen with hb | ⟨e, he⟩
      · exact hb
      · rw [h] at he
        cases he
    have hempty : parse file "" = .ok [] := parse_of_trim (by decide)
    cases hempty.symm.trans h
    exact ⟨by simp [events], rfl, rfl⟩
  | cons line lines ih =>
    have hintake := intake_describes (buffer ++ line ++ "\n")
    rw [textOf, ← String.append_assoc, ← String.append_assoc] at h
    simp only [events, leftOver]
    cases hi : intake (buffer ++ line ++ "\n") with
    | blank =>
      rw [hi] at hintake
      obtain ⟨behind, hb, hforms⟩ := parse_textOf_behind hintake h
      obtain ⟨hreports, hleft, hbatches⟩ := ih (.inl rfl) (by rwa [String.empty_append])
      refine ⟨?_, hleft, hbatches.trans hforms.symm⟩
      simpa [Intake.event?, Intake.kept] using hreports
    | ready read =>
      rw [hi] at hintake
      obtain ⟨behind, hb, hforms⟩ := parse_textOf_behind hintake h
      obtain ⟨hreports, hleft, hbatches⟩ := ih (.inl rfl) (by rwa [String.empty_append])
      refine ⟨?_, hleft, ?_⟩
      · simpa [Intake.event?, Intake.kept] using hreports
      · rw [hforms, ← hbatches]
        simp [Intake.event?, Intake.kept, List.filterMap_cons, Event.batch?]
    | waiting =>
      rw [hi] at hintake
      obtain ⟨hreports, hleft, hbatches⟩ := ih (.inr hintake) h
      refine ⟨?_, hleft, hbatches⟩
      simpa [Intake.event?, Intake.kept] using hreports
    | refused e =>
      rw [hi] at hintake
      rw [parse_append_error hintake.1 hintake.2] at h
      cases h

end Prompt

/-- Lines whose text reads as a whole are evaluated at the prompt in batches that make up the forms
of the text, with no fault reported and nothing left over. Wherever a text that reads ends a line,
what follows is read on its own, the lines before it counted. -/
theorem prompt_keeps_forms :
    (∀ (config : Config) (s : Session) (lines : List String) (file : String) (forms : List Form),
      parse file (Prompt.textOf lines) = .ok forms →
      Prompt.State.feedAll config ⟨s, ""⟩ lines =
        ⟨(Prompt.events "" lines).foldl (Prompt.Event.perform config) s, ""⟩ ∧
      (∀ e, .reports e ∉ Prompt.events "" lines) ∧
      (Prompt.batches lines).flatten.map Form.unplaced = forms.map Form.unplaced) ∧
    (∀ (file text more : String) (forms : List Form), parse file (text ++ "\n") = .ok forms →
      parse file (text ++ "\n" ++ more) =
        match parse file more with
        | .ok behind =>
          .ok (forms ++ behind.map (Form.relocate (.down (lineCount (text ++ "\n")))))
        | .error e => .error (e.relocate (.down (lineCount (text ++ "\n"))))) := by
  refine ⟨fun config s lines file forms h => ?_, fun file text more forms h => parse_append h more⟩
  have hfile := readForms_inFile file Prompt.file (Prompt.textOf lines)
  rw [parse_eq_ok_iff.1 h] at hfile
  have hgather : parse Prompt.file ("" ++ Prompt.textOf lines) =
      .ok (forms.map (Form.relocate (.inFile Prompt.file))) := by
    rw [String.empty_append]
    exact parse_eq_ok_iff.2 hfile
  obtain ⟨hreports, hleft, hbatches⟩ := Prompt.gather (.inl rfl) hgather
  rw [Form.map_unplaced_relocate] at hbatches
  refine ⟨?_, hreports, hbatches⟩
  rw [Prompt.State.feedAll_eq, hleft]

/-- The first line waits for the second, which ends the definition of a name and reads it, and the
comment is a batch of no forms. -/
theorem prompt_keeps_forms_lines :
    let lines := ["(def a", "true) a", "; b"]
    let forms : List Form :=
      [.call [.symbol "def", .symbol "a", .atom (.bool true)] ⟨"t", 1, 1⟩, .symbol "a"]
    let config : Config := ⟨9, false, .all⟩
    let s : Session := { Session.initial with
      globals := ⟨[("def", .function (.special .define))]⟩ }
    let bound := s.globals.insert "a" (.bool true)
    parse "t" (Prompt.textOf lines) = .ok forms ∧
      (Prompt.batches lines).flatten.map Form.unplaced = forms.map Form.unplaced ∧
      Prompt.State.feedAll config ⟨s, ""⟩ lines =
        ⟨{ s with globals := bound, output := "splike>    ...> true\nsplike> nil\nsplike> " }, ""⟩ ∧
      parse "t" ("f" ++ "\n" ++ "(g)") = .ok [.symbol "f", .call [.symbol "g"] ⟨"t", 2, 1⟩] := by
  intro lines forms config s bound
  have hlines : parse "t" (Prompt.textOf lines) = .ok forms := by cbv
  have hline : parse "t" ("f" ++ "\n") = .ok [.symbol "f"] := by cbv
  have hmore : parse "t" "(g)" = .ok [.call [.symbol "g"] ⟨"t", 1, 1⟩] := by cbv
  have hboth := prompt_keeps_forms.2 "t" "f" "(g)" _ hline
  rw [hmore] at hboth
  have hevents : Prompt.events "" lines = [.asks "", .asks "(def a\n",
      .evaluates [.call [.symbol "def", .symbol "a", .atom (.bool true)] ⟨Prompt.file, 1, 1⟩,
        .symbol "a"], .asks "", .evaluates [], .asks ""] := by cbv
  obtain ⟨hfeed, -, hbatches⟩ := prompt_keeps_forms.1 config s lines "t" forms hlines
  refine ⟨hlines, hbatches, ?_, hboth⟩
  rw [hfeed, hevents]
  rfl

end Lisplet
