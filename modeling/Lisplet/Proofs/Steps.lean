import Lisplet.Source.Forms

/-!
Reading one token at a time: what follows a step, and which faults a step can find. A token is never
found incomplete; that is left to the end of the text.
-/

namespace Lisplet

namespace Reading

/-- What a reading gives behind a step. -/
def resume (file : String) : Step → Tokens → List Form × Option ReadError
  | .more state, rest => forms file state rest
  | .done _, .fault cause p => ([], some ⟨.lex cause, file, p⟩)
  | .done form, rest => (form :: (forms file (.form []) rest).1, (forms file (.form []) rest).2)

theorem forms_next (file : String) (state : State) (token : Token) (p : Position) (rest : Tokens) :
    forms file state (.next token p rest) =
      match step ⟨file, p⟩ state token with
      | .error fault => ([], some ⟨fault, file, p⟩)
      | .ok s => resume file s rest := by
  rw [forms]
  rcases step ⟨file, p⟩ state token with fault | ⟨state | form⟩
  · rfl
  · rfl
  · cases rest <;> rfl

theorem resume_done {file : String} {rest : Tokens} (form : Form)
    (h : (forms file (.form []) rest).2 = none) :
    resume file (.done form) rest = (form :: (forms file (.form []) rest).1, none) := by
  cases rest with
  | done p => rfl
  | fault cause p => cases h
  | next token p rest =>
    rw [resume, h]
    rintro cause q ⟨⟩

theorem exists_of_resume_done {file : String} {form : Form} {rest : Tokens} {fs : List Form}
    (h : resume file (.done form) rest = (fs, none)) :
    ∃ more, fs = form :: more ∧ forms file (.form []) rest = (more, none) := by
  have hnone : (forms file (.form []) rest).2 = none := by
    cases rest with
    | fault cause p => cases h
    | done p => rfl
    | next token p rest => exact congrArg Prod.snd h
  rw [resume_done form hnone] at h
  exact ⟨_, (congrArg Prod.fst h).symm, Prod.ext rfl hnone⟩

/-- The state in which the reading goes on; behind a finished form it is between forms. -/
def Step.next : Step → State
  | more state => state
  | done _ => .form []

theorem forms_next_snd (file : String) (state : State) (token : Token) (p : Position)
    (rest : Tokens) :
    (forms file state (.next token p rest)).2 =
      match step ⟨file, p⟩ state token with
      | .error fault => some ⟨fault, file, p⟩
      | .ok s => (forms file s.next rest).2 := by
  rw [forms_next]
  rcases step ⟨file, p⟩ state token with fault | ⟨state | form⟩
  · rfl
  · rfl
  · cases rest <;> rfl

theorem enter_of_lt {outer : List Frame} (h : outer.length < maxNesting) (state : State) :
    enter outer state = .ok (.more state) := by
  rw [enter, if_neg (Nat.not_le.2 h)]

theorem atEnd_isIncomplete {state : State} {fault : ReadFault} (h : state.atEnd = some fault) :
    fault.isIncomplete = true := by
  rcases state with (_ | ⟨_ | _ | _ | _, outer⟩) | _ <;> cases h <;> rfl

theorem enter_isIncomplete {outer : List Frame} {state : State} {fault : ReadFault}
    (h : enter outer state = .error fault) : fault.isIncomplete = false := by
  unfold enter at h
  split at h <;> cases h
  rfl

theorem close_isIncomplete {b : Bracket} {outer : List Frame} {fault : ReadFault}
    (h : close b outer = .error fault) : fault.isIncomplete = false := by
  rcases outer with _ | ⟨_ | _ | _ | _, outer⟩ <;> cases b <;> cases h <;> rfl

/-- Only the end of the text can find a form incomplete, never a token. -/
theorem step_isIncomplete {l : Location} {state : State} {token : Token} {fault : ReadFault}
    (h : step l state token = .error fault) : fault.isIncomplete = false := by
  cases state with
  | form outer =>
    rcases token with (_ | _ | _) | _ | _ | _ | _
    · exact enter_isIncomplete h
    · exact enter_isIncomplete h
    · exact enter_isIncomplete h
    · exact close_isIncomplete h
    · exact enter_isIncomplete h
    · cases h
    · cases h
  | key entries outer =>
    rcases token with _ | (_ | _ | _) | _ | _ | _ <;> cases h <;> rfl

end Reading

theorem parse_eq_ok_iff {file source : String} {forms : List Form} :
    parse file source = .ok forms ↔ readForms file source = (forms, none) := by
  unfold parse
  split <;> simp_all

theorem parse_eq_error_iff {file source : String} {e : ReadError} :
    parse file source = .error e ↔ (readForms file source).2 = some e := by
  unfold parse
  split <;> simp_all

theorem exists_parse_eq_ok_iff {file source : String} :
    (∃ forms, parse file source = .ok forms) ↔ (readForms file source).2 = none := by
  unfold parse
  split <;> simp_all

end Lisplet
