import Lisplet.Proofs.Spelling
import Lisplet.Proofs.Steps

/-!
What a reading can bring in. Every symbol of a form that was read is a name, and its brackets nest
no deeper than the limit: each bracket that is open leaves one level less to what it holds.
-/

namespace Lisplet

open Lexeme

namespace Form

/-- The forms directly inside a form. -/
def children : Form → List Form
  | atom _ | symbol _ => []
  | call items _ | quoted items _ | vector items => items
  | table entries => entries.map Prod.snd

/-- The form is part of another one, or is that one. -/
inductive Occurs (n : Form) : Form → Prop
  | self : Occurs n n
  | inside {f g : Form} (hg : g ∈ f.children) (h : Occurs n g) : Occurs n f

/-- All symbols are names and brackets nest at most so many levels deep. -/
inductive Readable : Nat → Form → Prop
  | atom {k : Nat} (a : Atom) : Readable k (.atom a)
  | symbol {k : Nat} {name : String} (h : IsName name) : Readable k (.symbol name)
  | call {k : Nat} {items : List Form} (l : Location) (h : ∀ f ∈ items, Readable k f) :
      Readable (k + 1) (.call items l)
  | quoted {k : Nat} {items : List Form} (l : Location) (h : ∀ f ∈ items, Readable k f) :
      Readable (k + 1) (.quoted items l)
  | vector {k : Nat} {items : List Form} (h : ∀ f ∈ items, Readable k f) :
      Readable (k + 1) (.vector items)
  | table {k : Nat} {entries : List (Atom × Form)}
      (h : ∀ f ∈ entries.map Prod.snd, Readable k f) : Readable (k + 1) (.table entries)

theorem Readable.of_mem_children {k : Nat} {f g : Form} (h : Readable k f) (hg : g ∈ f.children) :
    ∃ j ≤ k, Readable j g := by
  cases h with
  | atom | symbol => cases hg
  | call _ h | quoted _ h | vector h | table h => exact ⟨_, Nat.le_succ _, h g hg⟩

theorem Readable.of_occurs {k : Nat} {n f : Form} (h : Readable k f) (hn : n.Occurs f) :
    ∃ j ≤ k, Readable j n := by
  induction hn generalizing k with
  | self => exact ⟨k, le_rfl, h⟩
  | inside hg _ ih =>
    obtain ⟨i, hi, hreadable⟩ := h.of_mem_children hg
    obtain ⟨j, hj, hn⟩ := ih hreadable
    exact ⟨j, hj.trans hi, hn⟩

end Form

/-- Every symbol among the tokens is a name. -/
def Tokens.Named : Tokens → Prop
  | done _ | fault .. => True
  | next token _ rest => (∀ name, token = .symbol name → IsName name) ∧ rest.Named

theorem Tokens.ofText_named (p : Position) (cs : List Char) : (ofText p cs).Named := by
  induction cs using text_induction generalizing p with
  | gap cs gap hg =>
    rw [ofText_of_gap hg]
    trivial
  | lexeme cs gap c ds hg ih =>
    rw [ofText_of_lexeme hg]
    cases ho : (scan c ds).outcome with
    | error e => trivial
    | ok t =>
      refine ⟨?_, ih _⟩
      rintro name rfl
      exact isName_of_scan (splitGap_head hg) ho

namespace Reading

def Frame.forms : Frame → List Form
  | call items _ | quoted items _ | vector items => items
  | entry entries _ => entries.map Prod.snd

/-- So many levels are left inside the open brackets, and what they hold respects that. -/
inductive Fits : Nat → List Frame → Prop
  | nil : Fits maxNesting []
  | cons {k : Nat} {frame : Frame} {outer : List Frame} (houter : Fits (k + 1) outer)
      (h : ∀ f ∈ frame.forms, f.Readable k) : Fits k (frame :: outer)

def State.Fits : State → Prop
  | form outer => ∃ k, Reading.Fits k outer
  | key entries outer =>
    ∃ k, Reading.Fits (k + 1) outer ∧ ∀ f ∈ entries.map Prod.snd, f.Readable k

def Step.Fits : Step → Prop
  | more state => state.Fits
  | done form => form.Readable maxNesting

theorem Fits.length_add {k : Nat} {outer : List Frame} (h : Fits k outer) :
    outer.length + k = maxNesting := by
  induction h with
  | nil => simp
  | cons houter h ih =>
    rw [List.length_cons]
    omega

theorem place_fits {k : Nat} {outer : List Frame} (h : Fits k outer) {form : Form}
    (hform : form.Readable k) : (place form outer).Fits := by
  cases h with
  | nil => exact hform
  | @cons k frame outer houter h =>
    have hmore : ∀ f ∈ form :: frame.forms, f.Readable k := by
      simpa using ⟨hform, h⟩
    cases frame with
    | call items l => exact ⟨k, .cons houter hmore⟩
    | quoted items l => exact ⟨k, .cons houter hmore⟩
    | vector items => exact ⟨k, .cons houter hmore⟩
    | entry entries key => exact ⟨k, houter, hmore⟩

theorem enter_fits {k : Nat} {outer : List Frame} (h : Fits k outer) {state : State} {s : Step}
    (hs : enter outer state = .ok s) (hstate : ∀ j, Fits (j + 1) outer → state.Fits) : s.Fits := by
  unfold enter at hs
  split at hs
  · cases hs
  · cases hs
    have hlength := h.length_add
    obtain ⟨j, rfl⟩ : ∃ j, k = j + 1 := ⟨k - 1, by omega⟩
    exact hstate j h

theorem close_fits {k : Nat} {outer : List Frame} (h : Fits k outer) {b : Bracket} {s : Step}
    (hs : close b outer = .ok s) : s.Fits := by
  cases h with
  | nil => cases hs
  | @cons k frame outer houter h =>
    cases frame with
    | call items l =>
      simp only [close] at hs
      split at hs <;> cases hs
      exact place_fits houter (.call l fun f hf => h f (List.mem_reverse.1 hf))
    | quoted items l =>
      simp only [close] at hs
      split at hs <;> cases hs
      exact place_fits houter (.quoted l fun f hf => h f (List.mem_reverse.1 hf))
    | vector items =>
      simp only [close] at hs
      split at hs <;> cases hs
      exact place_fits houter (.vector fun f hf => h f (List.mem_reverse.1 hf))
    | entry entries key => cases hs

theorem step_fits {l : Location} {state : State} {token : Token} {s : Step} (h : state.Fits)
    (htoken : ∀ name, token = .symbol name → IsName name) (hs : step l state token = .ok s) :
    s.Fits := by
  cases state with
  | form outer =>
    obtain ⟨k, hk⟩ := h
    rcases token with (_ | _ | _) | b | _ | a | name
    · exact enter_fits hk hs fun j hj => ⟨j, .cons hj nofun⟩
    · exact enter_fits hk hs fun j hj => ⟨j, .cons hj nofun⟩
    · exact enter_fits hk hs fun j hj => ⟨j, hj, nofun⟩
    · exact close_fits hk hs
    · exact enter_fits hk hs fun j hj => ⟨j, .cons hj nofun⟩
    · cases hs
      exact place_fits hk (.atom a)
    · cases hs
      exact place_fits hk (.symbol (htoken name rfl))
  | key entries outer =>
    obtain ⟨k, hk, hentries⟩ := h
    rcases token with _ | (_ | _ | _) | _ | a | name <;> cases hs
    · exact place_fits hk (.table fun f hf => hentries f (by simpa using hf))
    · exact ⟨k, .cons hk hentries⟩
    · exact ⟨k, .cons hk hentries⟩

/-- A reading that starts between forms brings in only readable ones. -/
theorem forms_readable {file : String} {state : State} {tokens : Tokens} (h : state.Fits)
    (htokens : tokens.Named) : ∀ f ∈ (forms file state tokens).1, f.Readable maxNesting := by
  induction tokens generalizing state with
  | done p => simp [forms]
  | fault cause p => simp [forms]
  | next token p rest ih =>
    obtain ⟨htoken, hrest⟩ := htokens
    rw [forms]
    split
    · simp
    · rename_i hs
      exact ih (step_fits h htoken hs) hrest
    · rename_i form hs
      have hform : form.Readable maxNesting := step_fits h htoken hs
      have hmore := @ih (.form []) ⟨_, .nil⟩ hrest
      split
      · simp
      · simpa using ⟨hform, hmore⟩

end Reading

/-- The symbols of what a text reads as are names. -/
theorem parse_readable {file source : String} {forms : List Form}
    (h : parse file source = .ok forms) : ∀ f ∈ forms, f.Readable maxNesting := by
  unfold parse at h
  split at h <;> cases h
  rename_i hread
  have hforms := @Reading.forms_readable file (.form []) (.ofString source) ⟨_, .nil⟩
    (Tokens.ofText_named .start source.toList)
  rwa [← readForms, hread] at hforms

end Lisplet
