import Lisplet.Proofs.Lexing
import Lisplet.Proofs.Steps

/-!
Places say where something was read and never what was. A text that stands further down, or in
another file, has the same tokens, forms and fault, with every place moved along.
-/

namespace Lisplet

namespace Form

mutual

/-- The form with its calls and quoted lists at other places. -/
def relocate (f : Location → Location) : Form → Form
  | atom a => atom a
  | symbol name => symbol name
  | call items l => call (relocateAll f items) (f l)
  | quoted items l => quoted (relocateAll f items) (f l)
  | vector items => vector (relocateAll f items)
  | table entries => table (relocateEntries f entries)

def relocateAll (f : Location → Location) : List Form → List Form
  | [] => []
  | form :: forms => form.relocate f :: relocateAll f forms

def relocateEntries (f : Location → Location) : List (Atom × Form) → List (Atom × Form)
  | [] => []
  | (key, form) :: entries => (key, form.relocate f) :: relocateEntries f entries

end

theorem relocateAll_eq (f : Location → Location) (forms : List Form) :
    relocateAll f forms = forms.map (relocate f) := by
  induction forms with
  | nil => rfl
  | cons form forms ih => rw [relocateAll, ih, List.map_cons]

theorem relocateAll_reverse (f : Location → Location) (forms : List Form) :
    relocateAll f forms.reverse = (forms.map (relocate f)).reverse := by
  rw [relocateAll_eq, List.map_reverse]

def relocateEntry (f : Location → Location) (e : Atom × Form) : Atom × Form := (e.1, e.2.relocate f)

theorem relocateEntries_eq (f : Location → Location) (entries : List (Atom × Form)) :
    relocateEntries f entries = entries.map (relocateEntry f) := by
  induction entries with
  | nil => rfl
  | cons e entries ih => rw [relocateEntries, ih, List.map_cons, relocateEntry]

mutual

theorem relocate_relocate (f g : Location → Location) (form : Form) :
    (form.relocate f).relocate g = form.relocate (g ∘ f) := by
  cases form with
  | atom a => rfl
  | symbol name => rfl
  | call items l => simp only [relocate, relocateAll_relocateAll, Function.comp_apply]
  | quoted items l => simp only [relocate, relocateAll_relocateAll, Function.comp_apply]
  | vector items => simp only [relocate, relocateAll_relocateAll]
  | table entries => simp only [relocate, relocateEntries_relocateEntries]

theorem relocateAll_relocateAll (f g : Location → Location) (forms : List Form) :
    relocateAll g (relocateAll f forms) = relocateAll (g ∘ f) forms := by
  cases forms with
  | nil => rfl
  | cons form forms => simp only [relocateAll, relocate_relocate, relocateAll_relocateAll]

theorem relocateEntries_relocateEntries (f g : Location → Location)
    (entries : List (Atom × Form)) :
    relocateEntries g (relocateEntries f entries) = relocateEntries (g ∘ f) entries := by
  cases entries with
  | nil => rfl
  | cons e entries =>
    simp only [relocateEntries, relocate_relocate, relocateEntries_relocateEntries]

end

/-- The form without regard to places. -/
def unplaced : Form → Form := relocate fun _ => ⟨"", .start⟩

theorem unplaced_relocate (f : Location → Location) (form : Form) :
    (form.relocate f).unplaced = form.unplaced := form.relocate_relocate f _

theorem map_unplaced_relocate (f : Location → Location) (forms : List Form) :
    (forms.map (relocate f)).map unplaced = forms.map unplaced := by
  simp only [List.map_map, List.map_inj_left, Function.comp_apply, unplaced_relocate, implies_true]

end Form

/-- The same fault at another place. -/
def ReadError.relocate (f : Location → Location) (e : ReadError) : ReadError :=
  ⟨e.fault, f e.location⟩

/-- The tokens at other places. -/
def Tokens.relocate (g : Position → Position) : Tokens → Tokens
  | done p => done (g p)
  | fault cause p => fault cause (g p)
  | next token p rest => next token (g p) (rest.relocate g)

namespace Reading

def Frame.relocate (f : Location → Location) : Frame → Frame
  | call items l => call (items.map (Form.relocate f)) (f l)
  | quoted items l => quoted (items.map (Form.relocate f)) (f l)
  | vector items => vector (items.map (Form.relocate f))
  | entry entries key => entry (entries.map (Form.relocateEntry f)) key

def State.relocate (f : Location → Location) : State → State
  | form outer => form (outer.map (Frame.relocate f))
  | key entries outer => key (entries.map (Form.relocateEntry f)) (outer.map (Frame.relocate f))

def Step.relocate (f : Location → Location) : Step → Step
  | more state => more (state.relocate f)
  | done form => done (form.relocate f)

variable (f : Location → Location)

theorem place_relocate (form : Form) (outer : List Frame) :
    place (form.relocate f) (outer.map (Frame.relocate f)) = (place form outer).relocate f := by
  rcases outer with _ | ⟨_ | _ | _ | _, outer⟩ <;> rfl

theorem enter_relocate (outer : List Frame) (state : State) :
    enter (outer.map (Frame.relocate f)) (state.relocate f) =
      (enter outer state).map (Step.relocate f) := by
  simp only [enter, List.length_map]
  split <;> rfl

theorem close_relocate (b : Bracket) (outer : List Frame) :
    close b (outer.map (Frame.relocate f)) = (close b outer).map (Step.relocate f) := by
  rcases outer with _ | ⟨frame, outer⟩
  · rfl
  · cases frame with
    | call items l =>
      have hplace := place_relocate f (.call items.reverse l) outer
      rw [Form.relocate, Form.relocateAll_reverse] at hplace
      simp only [List.map_cons, Frame.relocate, close, hplace]
      split <;> rfl
    | quoted items l =>
      have hplace := place_relocate f (.quoted items.reverse l) outer
      rw [Form.relocate, Form.relocateAll_reverse] at hplace
      simp only [List.map_cons, Frame.relocate, close, hplace]
      split <;> rfl
    | vector items =>
      have hplace := place_relocate f (.vector items.reverse) outer
      rw [Form.relocate, Form.relocateAll_reverse] at hplace
      simp only [List.map_cons, Frame.relocate, close, hplace]
      split <;> rfl
    | entry entries key => rfl

theorem step_relocate (l : Location) (state : State) (token : Token) :
    step (f l) (state.relocate f) token = (step l state token).map (Step.relocate f) := by
  cases state with
  | form outer =>
    rcases token with (_ | _ | _) | b | _ | a | name
    · exact enter_relocate f outer (.form (.call [] l :: outer))
    · exact enter_relocate f outer (.form (.vector [] :: outer))
    · exact enter_relocate f outer (.key [] outer)
    · exact close_relocate f b outer
    · exact enter_relocate f outer (.form (.quoted [] l :: outer))
    · exact congrArg Except.ok (place_relocate f (.atom a) outer)
    · exact congrArg Except.ok (place_relocate f (.symbol name) outer)
  | key entries outer =>
    rcases token with _ | (_ | _ | _) | _ | _ | _
    case closing.curly =>
      have htable : Form.table (entries.map (Form.relocateEntry f)).reverse =
          (Form.table entries.reverse).relocate f := by
        simp only [Form.relocate, Form.relocateEntries_eq, List.map_reverse]
      simp only [State.relocate, step, htable, place_relocate]
      rfl
    all_goals rfl

theorem atEnd_relocate (state : State) : (state.relocate f).atEnd = state.atEnd := by
  rcases state with (_ | ⟨_ | _ | _ | _, outer⟩) | _ <;> rfl

variable {f} {g : Position → Position} {file file' : String}

/-- Moved tokens are read as moved forms. -/
theorem forms_relocate (h : ∀ p, f ⟨file, p⟩ = ⟨file', g p⟩) (state : State) (tokens : Tokens) :
    forms file' (state.relocate f) (tokens.relocate g) =
      ((forms file state tokens).1.map (Form.relocate f),
        (forms file state tokens).2.map (ReadError.relocate f)) := by
  induction tokens generalizing state with
  | done p =>
    simp only [Tokens.relocate, forms, atEnd_relocate, List.map_nil, Option.map_map, ← h]
    rfl
  | fault cause p =>
    simp only [Tokens.relocate, forms, List.map_nil, Option.map_some, ReadError.relocate, h]
  | next token p rest ih =>
    rw [Tokens.relocate, forms_next, forms_next, ← h, step_relocate]
    rcases step ⟨file, p⟩ state token with fault | ⟨state | form⟩
    · simp only [Except.map, List.map_nil, Option.map_some, ReadError.relocate, h]
    · exact ih state
    · cases rest with
      | done q => rfl
      | fault cause q =>
        simp only [Except.map, Step.relocate, Tokens.relocate, resume, List.map_nil,
          Option.map_some, ReadError.relocate, h]
      | next token q rest =>
        have hrest := ih (.form [])
        simp only [Except.map, Step.relocate, Tokens.relocate, resume, List.map_cons]
        simp only [State.relocate, List.map_nil, Tokens.relocate] at hrest
        rw [hrest]

end Reading

namespace Position

/-- The place so many lines further down. -/
def down (p : Position) (n : Nat) : Position := ⟨p.line + n, p.column⟩

theorem next_down (p : Position) (n : Nat) (c : Char) : (p.down n).next c = (p.next c).down n := by
  unfold next down
  split
  · simp only [mk.injEq, and_true]
    omega
  · rfl

theorem past_down (p : Position) (n : Nat) (cs : List Char) :
    (p.down n).past cs = (p.past cs).down n := by
  induction cs generalizing p with
  | nil => rfl
  | cons c cs ih => rw [past_cons, next_down, ih, past_cons]

theorem line_past (p : Position) (cs : List Char) : (p.past cs).line = p.line + cs.count '\n' := by
  induction cs generalizing p with
  | nil => rfl
  | cons c cs ih =>
    rw [past_cons, ih, List.count_cons]
    by_cases hc : c = '\n' <;> simp [next, hc]
    omega

end Position

theorem Tokens.ofText_down (p : Position) (n : Nat) (cs : List Char) :
    ofText (p.down n) cs = (ofText p cs).relocate (·.down n) := by
  induction cs using text_induction generalizing p with
  | gap cs gap hg =>
    rw [ofText_of_gap hg, ofText_of_gap hg, Position.past_down]
    rfl
  | lexeme cs gap c ds hg ih =>
    rw [ofText_of_lexeme hg, ofText_of_lexeme hg]
    simp only [Position.past_down, ih]
    cases (Lexeme.scan c ds).outcome <;> rfl

/-- The place so many lines further down in the same file. -/
def Location.down (n : Nat) (l : Location) : Location := ⟨l.file, l.position.down n⟩

/-- A text further down is read as the same text at the start. -/
theorem forms_down (file source : String) (n : Nat) :
    Reading.forms file (.form []) (.ofText (Position.start.down n) source.toList) =
      ((readForms file source).1.map (Form.relocate (.down n)),
        (readForms file source).2.map (ReadError.relocate (.down n))) := by
  have hf : ∀ p, Location.down n ⟨file, p⟩ = ⟨file, p.down n⟩ := fun _ => rfl
  have h := Reading.forms_relocate hf (.form []) (.ofString source)
  rwa [Tokens.ofString_eq, ← Tokens.ofText_down] at h

/-- The same place in another file. -/
def Location.inFile (file : String) (l : Location) : Location := ⟨file, l.position⟩

theorem Tokens.relocate_id (tokens : Tokens) : tokens.relocate id = tokens := by
  induction tokens with
  | done p => rfl
  | fault cause p => rfl
  | next token p rest ih => rw [relocate, ih, id]

/-- The name of the file shows in places only. -/
theorem readForms_inFile (file file' source : String) :
    readForms file' source =
      ((readForms file source).1.map (Form.relocate (.inFile file')),
        (readForms file source).2.map (ReadError.relocate (.inFile file'))) := by
  have hf : ∀ p, Location.inFile file' ⟨file, p⟩ = ⟨file', id p⟩ := fun _ => rfl
  have h := Reading.forms_relocate hf (.form []) (.ofString source)
  rwa [Tokens.relocate_id] at h

end Lisplet
