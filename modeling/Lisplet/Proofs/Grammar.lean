import Mathlib
import Lisplet.Proofs.Nesting

/-!
The grammar of source texts, and that reading accepts exactly what it derives:

    form ::= atom | symbol | ( form* ) | '( form* ) | [ form* ] | { (key form)* }
    key  ::= atom | symbol

A derivation is a tree whose leaves, from left to right, are the tokens it derives. The reader goes
through tokens with a stack of open brackets. At any time what the brackets hold is derived by the
tokens so far; and the tokens of a derivation take the reader over its form, whatever brackets stand
around it, as long as these leave room for its height.
-/

namespace Lisplet

/-! Tokens as a list. -/

namespace Tokens

/-- The tokens of a text and their places, if it has no fault. -/
def all? : Tokens → Option (List (Token × Position))
  | done _ => some []
  | fault .. => none
  | next token p rest => rest.all?.map ((token, p) :: ·)

/-- More tokens in front. -/
def behind (ts : List (Token × Position)) (rest : Tokens) : Tokens :=
  ts.foldr (fun t rest => .next t.1 t.2 rest) rest

@[simp] theorem behind_nil (rest : Tokens) : behind [] rest = rest := rfl

@[simp] theorem behind_cons (t : Token × Position) (ts : List (Token × Position))
    (rest : Tokens) : behind (t :: ts) rest = .next t.1 t.2 (behind ts rest) := rfl

@[simp] theorem behind_append (ts us : List (Token × Position)) (rest : Tokens) :
    behind (ts ++ us) rest = behind ts (behind us rest) := by
  simp [behind]

theorem all?_eq_some_iff {tokens : Tokens} {ts : List (Token × Position)} :
    tokens.all? = some ts ↔ ∃ p, tokens = behind ts (.done p) := by
  induction tokens generalizing ts with
  | done p =>
    cases ts with
    | nil => simp [all?]
    | cons t ts => simp [all?]
  | fault cause p =>
    cases ts with
    | nil => simp [all?]
    | cons t ts => simp [all?]
  | next token p rest ih =>
    cases ts with
    | nil => simp [all?]
    | cons t ts =>
      obtain ⟨token', p'⟩ := t
      simp only [all?, Option.map_eq_some_iff, List.cons.injEq, Prod.mk.injEq, behind_cons,
        next.injEq, ih]
      constructor
      · rintro ⟨us, ⟨q, hq⟩, ⟨ht, hp⟩, rfl⟩
        exact ⟨q, ht, hp, hq⟩
      · rintro ⟨q, ht, hp, hq⟩
        exact ⟨ts, ⟨q, hq⟩, ⟨ht, hp⟩, rfl⟩

/-- A token stands where its place says. -/
theorem exists_place {p : Position} {cs : List Char} {ts : List (Token × Position)}
    (h : (ofText p cs).all? = some ts) {t : Token × Position} (ht : t ∈ ts) :
    ∃ before c after, cs = before ++ c :: after ∧ t.2 = p.past before ∧
      (Lexeme.scan c after).outcome = .ok t.1 := by
  induction cs using text_induction generalizing p ts with
  | gap cs gap hg =>
    rw [ofText_of_gap hg] at h
    cases h
    cases ht
  | lexeme cs gap c ds hg ih =>
    have hcs : gap ++ c :: ds = cs := by
      simpa only [hg] using Lexeme.splitGap_split false cs
    rw [ofText_of_lexeme hg] at h
    cases hs : (Lexeme.scan c ds).outcome with
    | error e =>
      rw [hs] at h
      cases h
    | ok token =>
      rw [hs] at h
      obtain ⟨us, hus, rfl⟩ := Option.map_eq_some_iff.1 h
      rcases List.mem_cons.1 ht with rfl | ht
      · exact ⟨gap, c, ds, hcs.symm, rfl, hs⟩
      · obtain ⟨before, d, after, hrest, hplace, hscan⟩ := ih hus ht
        have hsplit := Lexeme.scan_split c ds
        refine ⟨gap ++ (Lexeme.scan c ds).lexeme ++ before, d, after, ?_, ?_, hscan⟩
        · rw [← hcs, ← hsplit, hrest]
          simp only [List.append_assoc]
        · rw [hplace, Position.past_append, Position.past_append]

end Tokens

/-! The grammar. -/

/-- The brackets around a sequence of forms. -/
inductive Grouping
  | call
  | quoted
  | vector
  deriving Repr, DecidableEq

namespace Grouping

def opening : Grouping → Token
  | call => .opening .round
  | quoted => .quoting
  | vector => .opening .square

def closing : Grouping → Bracket
  | call | quoted => .round
  | vector => .square

def form (g : Grouping) (items : List Form) (l : Location) : Form :=
  match g with
  | call => .call items l
  | quoted => .quoted items l
  | vector => .vector items

theorem opening_injective {g g' : Grouping} (h : g.opening = g'.opening) : g = g' := by
  cases g <;> cases g' <;> first | rfl | cases h

end Grouping

/-- What can stand for the key of a table entry. -/
inductive Key
  | atom (a : Atom)
  | symbol (name : String)

namespace Key

def token : Key → Token
  | atom a => .atom a
  | symbol name => .symbol name

/-- A symbol becomes the text of its name. -/
def value : Key → Atom
  | atom a => a
  | symbol name => .text name

theorem token_injective {key key' : Key} (h : key.token = key'.token) : key = key' := by
  cases key <;> cases key' <;> cases h <;> rfl

end Key

/-- How a form is derived, with the places of all tokens. -/
inductive Derivation
  | atom (a : Atom) (p : Position)
  | symbol (name : String) (p : Position)
  | group (g : Grouping) (start : Position) (items : List Derivation) (stop : Position)
  | table (start : Position) (entries : List ((Key × Position) × Derivation)) (stop : Position)

namespace Derivation

mutual

/-- The tokens that are derived. -/
def tokens : Derivation → List (Token × Position)
  | atom a p => [(.atom a, p)]
  | symbol name p => [(.symbol name, p)]
  | group g start items stop =>
    (g.opening, start) :: (tokensAll items ++ [(.closing g.closing, stop)])
  | table start entries stop =>
    (.opening .curly, start) :: (tokensEntries entries ++ [(.closing .curly, stop)])

def tokensAll : List Derivation → List (Token × Position)
  | [] => []
  | d :: ds => tokens d ++ tokensAll ds

def tokensEntries : List ((Key × Position) × Derivation) → List (Token × Position)
  | [] => []
  | ((key, p), d) :: es => (key.token, p) :: (tokens d ++ tokensEntries es)

end

mutual

/-- The form that is derived; a call or a quoted list is located where its first token stands. -/
def form (file : String) : Derivation → Form
  | atom a _ => .atom a
  | symbol name _ => .symbol name
  | group g start items _ => g.form (formAll file items) ⟨file, start⟩
  | table _ entries _ => .table (formEntries file entries)

def formAll (file : String) : List Derivation → List Form
  | [] => []
  | d :: ds => form file d :: formAll file ds

def formEntries (file : String) : List ((Key × Position) × Derivation) → List (Atom × Form)
  | [] => []
  | ((key, _), d) :: es => (key.value, form file d) :: formEntries file es

end

mutual

/-- How deep brackets of any kind are nested. -/
def height : Derivation → Nat
  | atom _ _ | symbol _ _ => 0
  | group _ _ items _ => heightAll items + 1
  | table _ entries _ => heightEntries entries + 1

def heightAll : List Derivation → Nat
  | [] => 0
  | d :: ds => max (height d) (heightAll ds)

def heightEntries : List ((Key × Position) × Derivation) → Nat
  | [] => 0
  | (_, d) :: es => max (height d) (heightEntries es)

end

section Lists

variable (file : String) (ds : List Derivation) (d : Derivation)
  (es : List ((Key × Position) × Derivation)) (e : (Key × Position) × Derivation)

theorem tokensAll_eq_flatMap : tokensAll ds = ds.flatMap tokens := by
  induction ds with
  | nil => rfl
  | cons d ds ih => rw [tokensAll, ih, List.flatMap_cons]

theorem formAll_eq_map : formAll file ds = ds.map (form file) := by
  induction ds with
  | nil => rfl
  | cons d ds ih => rw [formAll, ih, List.map_cons]

theorem tokensEntries_eq_flatMap :
    tokensEntries es = es.flatMap fun e => (e.1.1.token, e.1.2) :: e.2.tokens := by
  induction es with
  | nil => rfl
  | cons e es ih => rw [tokensEntries, ih, List.flatMap_cons, List.cons_append]

theorem formEntries_eq_map :
    formEntries file es = es.map fun e => (e.1.1.value, e.2.form file) := by
  induction es with
  | nil => rfl
  | cons e es ih => rw [formEntries, ih, List.map_cons]

@[simp] theorem tokensAll_append : tokensAll (ds ++ [d]) = tokensAll ds ++ d.tokens := by
  simp [tokensAll_eq_flatMap]

@[simp] theorem formAll_append : formAll file (ds ++ [d]) = formAll file ds ++ [d.form file] := by
  simp [formAll_eq_map]

@[simp] theorem heightAll_append : heightAll (ds ++ [d]) = max (heightAll ds) d.height := by
  induction ds with
  | nil => simp [heightAll]
  | cons c ds ih => simp [heightAll, ih, Nat.max_assoc]

@[simp] theorem tokensEntries_append :
    tokensEntries (es ++ [e]) = tokensEntries es ++ (e.1.1.token, e.1.2) :: e.2.tokens := by
  simp [tokensEntries_eq_flatMap]

@[simp] theorem formEntries_append :
    formEntries file (es ++ [e]) = formEntries file es ++ [(e.1.1.value, e.2.form file)] := by
  simp [formEntries_eq_map]

@[simp] theorem heightEntries_append :
    heightEntries (es ++ [e]) = max (heightEntries es) e.2.height := by
  induction es with
  | nil => simp [heightEntries]
  | cons c es ih => simp [heightEntries, ih, Nat.max_assoc]

end Lists

/-! Each part of a form comes from a part of its derivation. -/

theorem exists_of_mem_children {file : String} {d : Derivation} {f : Form}
    (hf : f ∈ (d.form file).children) :
    ∃ d' : Derivation, d'.form file = f ∧ d'.tokens ⊆ d.tokens := by
  cases d with
  | atom | symbol => simp [form, Form.children] at hf
  | group g start items stop =>
    have hitems : f ∈ items.map (form file) := by
      cases g <;> simpa only [form, Grouping.form, Form.children, formAll_eq_map] using hf
    obtain ⟨d', hd', rfl⟩ := List.mem_map.1 hitems
    refine ⟨d', rfl, fun t ht => ?_⟩
    rw [tokens, tokensAll_eq_flatMap]
    exact .tail _ (List.mem_append_left _ (List.mem_flatMap.2 ⟨d', hd', ht⟩))
  | table start entries stop =>
    simp only [form, Form.children, formEntries_eq_map, List.map_map, List.mem_map] at hf
    obtain ⟨e, he, rfl⟩ := hf
    refine ⟨e.2, rfl, fun t ht => ?_⟩
    rw [tokens, tokensEntries_eq_flatMap]
    exact .tail _ (List.mem_append_left _ (List.mem_flatMap.2 ⟨e, he, .tail _ ht⟩))

/-- A call or a quoted list is located where its opening token stands. -/
theorem exists_opening {file : String} {d : Derivation} {g : Grouping} {items : List Form}
    {l : Location} (hg : g ≠ .vector) (h : (g.form items l).Occurs (d.form file)) :
    ∃ p, l = ⟨file, p⟩ ∧ (g.opening, p) ∈ d.tokens := by
  generalize hf : d.form file = f at h
  induction h generalizing d with
  | self =>
    cases d with
    | group g' start items' stop =>
      cases g <;> cases g' <;> simp [form, Grouping.form] at hf hg
      · exact ⟨start, hf.2.symm, .head _⟩
      · exact ⟨start, hf.2.symm, .head _⟩
    | _ => cases g <;> simp [form, Grouping.form] at hf
  | inside hchild _ ih =>
    subst hf
    obtain ⟨d', rfl, hsub⟩ := exists_of_mem_children hchild
    obtain ⟨p, hp, hmem⟩ := ih rfl
    exact ⟨p, hp, hsub hmem⟩

/-! A sequence of tokens has at most one derivation: the first token of a form tells which rule it
comes from, and a closing bracket starts none. -/

/-- Nothing, or a closing bracket first. -/
def Closed (ts : List (Token × Position)) : Prop := ∀ t ∈ ts.head?, ∃ b, t.1 = .closing b

theorem closed_nil : Closed [] := by simp [Closed]

theorem closed_cons (b : Bracket) (p : Position) (ts : List (Token × Position)) :
    Closed ((.closing b, p) :: ts) := by simp [Closed]

theorem not_closed_tokens (d : Derivation) (ts : List (Token × Position)) :
    ¬Closed (d.tokens ++ ts) := by
  cases d with
  | group g => cases g <;> simp [tokens, Closed, Grouping.opening]
  | _ => simp [tokens, Closed]

mutual

theorem tokens_inj (d d' : Derivation) {ts ts' : List (Token × Position)}
    (h : d.tokens ++ ts = d'.tokens ++ ts') : d = d' ∧ ts = ts' := by
  cases d with
  | atom a p =>
    cases d' with
    | group g => cases g <;> simp [tokens, Grouping.opening] at h
    | _ => simp_all [tokens]
  | symbol name p =>
    cases d' with
    | group g => cases g <;> simp [tokens, Grouping.opening] at h
    | _ => simp_all [tokens]
  | group g start items stop =>
    cases d' with
    | group g' start' items' stop' =>
      simp only [tokens, List.cons_append, List.append_assoc, List.cons.injEq, Prod.mk.injEq] at h
      obtain ⟨⟨hg, rfl⟩, hitems⟩ := h
      obtain rfl := Grouping.opening_injective hg
      -- what follows the items starts with a closing bracket on both sides
      obtain ⟨rfl, hstop⟩ :=
        tokensAll_inj items items' (closed_cons _ _ _) (closed_cons _ _ _) hitems
      simp_all
    | _ => cases g <;> simp [tokens, Grouping.opening] at h
  | table start entries stop =>
    cases d' with
    | group g => cases g <;> simp [tokens, Grouping.opening] at h
    | table start' entries' stop' =>
      simp only [tokens, List.cons_append, List.append_assoc, List.cons.injEq, Prod.mk.injEq] at h
      obtain ⟨⟨-, rfl⟩, hentries⟩ := h
      obtain ⟨rfl, hstop⟩ :=
        tokensEntries_inj entries entries' (closed_cons _ _ _) (closed_cons _ _ _) hentries
      simp_all
    | _ => simp [tokens] at h

theorem tokensAll_inj (ds ds' : List Derivation) {ts ts' : List (Token × Position)}
    (hts : Closed ts) (hts' : Closed ts') (h : tokensAll ds ++ ts = tokensAll ds' ++ ts') :
    ds = ds' ∧ ts = ts' := by
  cases ds with
  | nil =>
    cases ds' with
    | nil => exact ⟨rfl, h⟩
    | cons d' ds' =>
      simp only [tokensAll, List.nil_append, List.append_assoc] at h
      exact absurd (h ▸ hts) (not_closed_tokens d' _)
  | cons d ds =>
    cases ds' with
    | nil =>
      simp only [tokensAll, List.nil_append, List.append_assoc] at h
      exact absurd (h ▸ hts') (not_closed_tokens d _)
    | cons d' ds' =>
      simp only [tokensAll, List.append_assoc] at h
      obtain ⟨rfl, hrest⟩ := tokens_inj d d' h
      obtain ⟨rfl, rfl⟩ := tokensAll_inj ds ds' hts hts' hrest
      exact ⟨rfl, rfl⟩

theorem tokensEntries_inj (es es' : List ((Key × Position) × Derivation))
    {ts ts' : List (Token × Position)} (hts : Closed ts) (hts' : Closed ts')
    (h : tokensEntries es ++ ts = tokensEntries es' ++ ts') : es = es' ∧ ts = ts' := by
  cases es with
  | nil =>
    cases es' with
    | nil => exact ⟨rfl, h⟩
    | cons e' es' =>
      obtain ⟨⟨key', p'⟩, d'⟩ := e'
      simp only [tokensEntries, List.nil_append, List.cons_append] at h
      subst h
      cases key' <;> simp [Closed, Key.token] at hts
  | cons e es =>
    obtain ⟨⟨key, p⟩, d⟩ := e
    cases es' with
    | nil =>
      simp only [tokensEntries, List.nil_append, List.cons_append] at h
      subst h
      cases key <;> simp [Closed, Key.token] at hts'
    | cons e' es' =>
      obtain ⟨⟨key', p'⟩, d'⟩ := e'
      simp only [tokensEntries, List.cons_append, List.append_assoc, List.cons.injEq,
        Prod.mk.injEq] at h
      obtain ⟨⟨hkey, rfl⟩, hrest⟩ := h
      obtain rfl := Key.token_injective hkey
      obtain ⟨rfl, hmore⟩ := tokens_inj d d' hrest
      obtain ⟨rfl, rfl⟩ := tokensEntries_inj es es' hts hts' hmore
      exact ⟨rfl, rfl⟩

end

/-- Nothing but these derivations derives their tokens. -/
theorem eq_of_tokensAll {ds ds' : List Derivation} (h : tokensAll ds = tokensAll ds') :
    ds = ds' := by
  refine (tokensAll_inj ds ds' closed_nil closed_nil ?_).1
  rw [h]

end Derivation

namespace Reading

open Lisplet.Derivation

/-! From derivations to forms: the reader gets over all that is derived. -/

/-- The open bracket of a grouping. -/
def Frame.ofGrouping (g : Grouping) (items : List Form) (l : Location) : Frame :=
  match g with
  | .call => .call items l
  | .quoted => .quoted items l
  | .vector => .vector items

theorem place_ofGrouping (g : Grouping) (form : Form) (items : List Form) (l : Location)
    (outer : List Frame) :
    place form (.ofGrouping g items l :: outer) =
      .more (.form (.ofGrouping g (form :: items) l :: outer)) := by
  cases g <;> rfl

theorem step_opening (l : Location) {outer : List Frame} (h : outer.length < maxNesting)
    (g : Grouping) :
    step l (.form outer) g.opening = .ok (.more (.form (.ofGrouping g [] l :: outer))) := by
  cases g <;> exact enter_of_lt h _

theorem step_closing (l : Location) (g : Grouping) (items : List Form) (start : Location)
    (outer : List Frame) :
    step l (.form (.ofGrouping g items start :: outer)) (.closing g.closing) =
      .ok (place (g.form items.reverse start) outer) := by
  cases g <;> rfl

theorem step_key (l : Location) (entries : List (Atom × Form)) (outer : List Frame) (key : Key) :
    step l (.key entries outer) key.token =
      .ok (.more (.form (.entry entries key.value :: outer))) := by
  cases key <;> rfl

variable {file : String}

theorem forms_of_step {state : State} {token : Token} {p : Position} {s : Step}
    (h : step ⟨file, p⟩ state token = .ok s) (rest : Tokens) :
    forms file state (.next token p rest) = resume file s rest := by
  rw [forms_next, h]

mutual

theorem forms_tokens (d : Derivation) (outer : List Frame)
    (h : outer.length + d.height ≤ maxNesting) (rest : Tokens) :
    forms file (.form outer) (.behind d.tokens rest) =
      resume file (place (d.form file) outer) rest := by
  cases d with
  | atom a p => exact forms_of_step rfl rest
  | symbol name p => exact forms_of_step rfl rest
  | group g start items stop =>
    rw [height] at h
    have hroom : outer.length < maxNesting := by omega
    have hopen := step_opening ⟨file, start⟩ hroom g
    have hitems := forms_tokensAll items outer (by omega) g [] ⟨file, start⟩
    have hclose := step_closing ⟨file, stop⟩ g (formAll file items).reverse ⟨file, start⟩ outer
    rw [tokens, Tokens.behind_cons, Tokens.behind_append, forms_of_step hopen, resume, hitems,
      List.append_nil, Tokens.behind_cons, forms_of_step hclose, List.reverse_reverse]
    rfl
  | table start entries stop =>
    rw [height] at h
    have hopen : step ⟨file, start⟩ (.form outer) (.opening .curly) = .ok (.more (.key [] outer)) :=
      enter_of_lt (by omega) _
    have hentries := forms_tokensEntries entries outer (by omega) []
    have hclose : step ⟨file, stop⟩ (.key (formEntries file entries).reverse outer)
        (.closing .curly) = .ok (place (.table (formEntries file entries)) outer) := by
      simp only [step, List.reverse_reverse]
    rw [tokens, Tokens.behind_cons, Tokens.behind_append, forms_of_step hopen, resume, hentries,
      List.append_nil, Tokens.behind_cons, forms_of_step hclose]
    rfl

theorem forms_tokensAll (ds : List Derivation) (outer : List Frame)
    (h : outer.length + 1 + heightAll ds ≤ maxNesting) (g : Grouping) (items : List Form)
    (l : Location) (rest : Tokens) :
    forms file (.form (.ofGrouping g items l :: outer)) (.behind (tokensAll ds) rest) =
      forms file (.form (.ofGrouping g ((formAll file ds).reverse ++ items) l :: outer)) rest := by
  cases ds with
  | nil => simp [tokensAll, formAll]
  | cons d ds =>
    rw [heightAll] at h
    rw [tokensAll, Tokens.behind_append,
      forms_tokens d (.ofGrouping g items l :: outer) (by rw [List.length_cons]; omega),
      place_ofGrouping, resume, forms_tokensAll ds outer (by omega)]
    simp [formAll]

theorem forms_tokensEntries (es : List ((Key × Position) × Derivation)) (outer : List Frame)
    (h : outer.length + 1 + heightEntries es ≤ maxNesting) (entries : List (Atom × Form))
    (rest : Tokens) :
    forms file (.key entries outer) (.behind (tokensEntries es) rest) =
      forms file (.key ((formEntries file es).reverse ++ entries) outer) rest := by
  cases es with
  | nil => simp [tokensEntries, formEntries]
  | cons e es =>
    obtain ⟨⟨key, p⟩, d⟩ := e
    rw [heightEntries] at h
    rw [tokensEntries, Tokens.behind_cons, Tokens.behind_append,
      forms_of_step (step_key _ entries outer key), resume,
      forms_tokens d (.entry entries key.value :: outer) (by rw [List.length_cons]; omega),
      place, resume, forms_tokensEntries es outer (by omega)]
    simp [formEntries]

end

/-- Whole derivations are read one after another, up to the end of the text. -/
theorem forms_derived {ds : List Derivation} (h : ∀ d ∈ ds, d.height ≤ maxNesting)
    (p : Position) :
    forms file (.form []) (.behind (tokensAll ds) (.done p)) = (formAll file ds, none) := by
  induction ds with
  | nil => rfl
  | cons d ds ih =>
    rw [List.forall_mem_cons] at h
    have hrest := ih h.2
    rw [tokensAll, Tokens.behind_append, forms_tokens d [] (by simpa using h.1), place,
      resume_done _ (congrArg Prod.snd hrest), hrest, formAll]

/-! From forms to derivations: what the open brackets hold has been derived. -/

/-- The tokens so far have opened these brackets and derive what they hold. -/
inductive Opened (file : String) : List Frame → List (Token × Position) → Prop
  | nil : Opened file [] []
  | group {outer : List Frame} {ts : List (Token × Position)} (houter : Opened file outer ts)
      (g : Grouping) (p : Position) (ds : List Derivation)
      (h : outer.length + 1 + heightAll ds ≤ maxNesting) :
      Opened file (.ofGrouping g (formAll file ds).reverse ⟨file, p⟩ :: outer)
        (ts ++ (g.opening, p) :: tokensAll ds)
  | entry {outer : List Frame} {ts : List (Token × Position)} (houter : Opened file outer ts)
      (p : Position) (es : List ((Key × Position) × Derivation))
      (h : outer.length + 1 + heightEntries es ≤ maxNesting) (key : Key) (q : Position) :
      Opened file (.entry (formEntries file es).reverse key.value :: outer)
        (ts ++ (.opening .curly, p) :: (tokensEntries es ++ [(key.token, q)]))

/-- The tokens so far lead to the state. -/
inductive State.Opened (file : String) : State → List (Token × Position) → Prop
  | form {outer : List Frame} {ts : List (Token × Position)} (h : Reading.Opened file outer ts) :
      State.Opened file (.form outer) ts
  | key {outer : List Frame} {ts : List (Token × Position)} (houter : Reading.Opened file outer ts)
      (p : Position) (es : List ((Key × Position) × Derivation))
      (h : outer.length + 1 + heightEntries es ≤ maxNesting) :
      State.Opened file (.key (formEntries file es).reverse outer)
        (ts ++ (.opening .curly, p) :: tokensEntries es)

inductive Step.Opened (file : String) : Step → List (Token × Position) → Prop
  | more {state : State} {ts : List (Token × Position)} (h : state.Opened file ts) :
      Step.Opened file (.more state) ts
  | done (d : Derivation) (h : d.height ≤ maxNesting) :
      Step.Opened file (.done (d.form file)) d.tokens

theorem place_opened {outer : List Frame} {ts : List (Token × Position)}
    (houter : Opened file outer ts) (d : Derivation) (h : outer.length + d.height ≤ maxNesting) :
    (place (d.form file) outer).Opened file (ts ++ d.tokens) := by
  cases houter with
  | nil =>
    rw [List.nil_append]
    exact .done d (by simpa using h)
  | @group outer ts houter g p ds hds =>
    rw [List.length_cons] at h
    rw [place_ofGrouping]
    have hmore := Opened.group houter g p (ds ++ [d]) (by rw [heightAll_append]; omega)
    simpa using Step.Opened.more (.form hmore)
  | @entry outer ts houter p es hes key q =>
    rw [List.length_cons] at h
    have hmore := State.Opened.key houter p (es ++ [((key, q), d)])
      (by rw [heightEntries_append]; dsimp only; omega)
    simpa [place] using Step.Opened.more hmore

theorem enter_opened {outer : List Frame} {state : State} {s : Step}
    (hs : enter outer state = .ok s) : outer.length < maxNesting ∧ s = .more state := by
  unfold enter at hs
  split at hs
  · cases hs
  · cases hs
    exact ⟨by omega, rfl⟩

theorem opening_opened {outer : List Frame} {ts : List (Token × Position)}
    (houter : Opened file outer ts) (g : Grouping) (p : Position) {s : Step}
    (hs : enter outer (.form (.ofGrouping g [] ⟨file, p⟩ :: outer)) = .ok s) :
    s.Opened file (ts ++ [(g.opening, p)]) := by
  obtain ⟨hlt, rfl⟩ := enter_opened hs
  exact .more (.form (.group houter g p [] (by rw [heightAll]; omega)))

theorem close_opened {outer : List Frame} {ts : List (Token × Position)}
    (houter : Opened file outer ts) {b : Bracket} (q : Position) {s : Step}
    (hs : close b outer = .ok s) : s.Opened file (ts ++ [(.closing b, q)]) := by
  cases houter with
  | nil => cases hs
  | @group outer ts houter g p ds hds =>
    have hb : b = g.closing ∧ s = place (g.form (formAll file ds) ⟨file, p⟩) outer := by
      cases g <;> simp only [Frame.ofGrouping, close] at hs <;> split at hs <;> cases hs <;>
        exact ⟨‹_›, by simp [Grouping.form]⟩
    obtain ⟨rfl, rfl⟩ := hb
    have hplace := place_opened houter (.group g p ds q) (by rw [height]; omega)
    simpa [form, tokens] using hplace
  | entry => cases hs

theorem Opened.length_le {outer : List Frame} {ts : List (Token × Position)}
    (h : Opened file outer ts) : outer.length ≤ maxNesting := by
  cases h with
  | nil => simp
  | group _ _ _ _ h =>
    rw [List.length_cons]
    omega
  | entry _ _ _ h =>
    rw [List.length_cons]
    omega

/-- One token more. -/
theorem step_opened {state : State} {ts : List (Token × Position)} (h : state.Opened file ts)
    {token : Token} {p : Position} {s : Step} (hs : step ⟨file, p⟩ state token = .ok s) :
    s.Opened file (ts ++ [(token, p)]) := by
  cases h with
  | @form outer ts houter =>
    have hle := houter.length_le
    -- the opening brackets, a closing one, the quote mark, an atom and a symbol
    rcases token with (_ | _ | _) | b | _ | a | name
    · exact opening_opened houter .call p hs
    · exact opening_opened houter .vector p hs
    · obtain ⟨hlt, rfl⟩ := enter_opened hs
      exact .more (.key houter p [] (by rw [heightEntries]; omega))
    · exact close_opened houter p hs
    · exact opening_opened houter .quoted p hs
    · cases hs
      exact place_opened houter (.atom a p) (by rw [height]; omega)
    · cases hs
      exact place_opened houter (.symbol name p) (by rw [height]; omega)
  | @key outer ts houter q es hes =>
    rcases token with _ | (_ | _ | _) | _ | a | name <;> cases hs
    · have hplace := place_opened houter (.table q es p) (by rw [height]; omega)
      simpa [form, tokens] using hplace
    · simpa [Key.token, Key.value] using
        Step.Opened.more (.form (.entry houter q es hes (.atom a) p))
    · simpa [Key.token, Key.value] using
        Step.Opened.more (.form (.entry houter q es hes (.symbol name) p))

/-- A reading that ends well has gone through all tokens, and they derive the forms. -/
theorem exists_derived {state : State} {ts : List (Token × Position)} (h : state.Opened file ts)
    {tokens : Tokens} {fs : List Form} (hread : forms file state tokens = (fs, none)) :
    ∃ us ds, tokens.all? = some us ∧ tokensAll ds = ts ++ us ∧ formAll file ds = fs ∧
      ∀ d ∈ ds, d.height ≤ maxNesting := by
  induction tokens generalizing state ts fs with
  | done p =>
    simp only [forms, Prod.mk.injEq, Option.map_eq_none_iff] at hread
    obtain ⟨rfl, hend⟩ := hread
    cases h with
    | form houter =>
      cases houter with
      | nil => exact ⟨[], [], rfl, rfl, rfl, by simp⟩
      | group => cases hend
      | entry => cases hend
    | key => cases hend
  | fault cause p => cases hread
  | next token p rest ih =>
    cases hs : step ⟨file, p⟩ state token with
    | error fault =>
      rw [forms_next, hs] at hread
      cases hread
    | ok s =>
      rw [forms_of_step hs] at hread
      have hopened := step_opened h hs
      -- a finished form starts a new derivation, any other token goes on with the one at hand
      generalize hts : ts ++ [(token, p)] = ts' at hopened
      cases hopened with
      | more hstate =>
        obtain ⟨us, ds, hus, htokens, hforms, hheight⟩ := ih hstate hread
        refine ⟨(token, p) :: us, ds, by simp [Tokens.all?, hus], ?_, hforms, hheight⟩
        rw [htokens, ← hts]
        simp
      | done d hd =>
        obtain ⟨more, rfl, hmore⟩ := exists_of_resume_done hread
        obtain ⟨us, ds, hus, htokens, hforms, hheight⟩ := ih (.form .nil) hmore
        refine ⟨(token, p) :: us, d :: ds, ?_, ?_, ?_, ?_⟩
        · rw [Tokens.all?, hus, Option.map_some]
        · rw [tokensAll, htokens, ← hts]
          simp
        · rw [formAll, hforms]
        · simpa using ⟨hd, hheight⟩

end Reading

/-- The derivations have these tokens for leaves, stand for these forms, and nest brackets of any
kind at most 512 deep. -/
structure Derives (file : String) (ts : List (Token × Position)) (forms : List Form)
    (ds : List Derivation) : Prop where
  tokens : Derivation.tokensAll ds = ts
  forms : Derivation.formAll file ds = forms
  nesting : ∀ d ∈ ds, d.height ≤ 512

theorem exists_derives_iff {file source : String} {forms : List Form} :
    parse file source = .ok forms ↔
      ∃ ts, (Tokens.ofString source).all? = some ts ∧ ∃ ds, Derives file ts forms ds := by
  rw [parse_eq_ok_iff, readForms]
  constructor
  · intro h
    obtain ⟨ts, ds, hts, htokens, hforms, hheight⟩ := Reading.exists_derived (.form .nil) h
    exact ⟨ts, hts, ds, htokens, hforms, hheight⟩
  · rintro ⟨ts, hts, ds, rfl, rfl, hheight⟩
    obtain ⟨p, hp⟩ := Tokens.all?_eq_some_iff.1 hts
    rw [hp]
    exact Reading.forms_derived hheight p

/-- Reading accepts exactly the grammar: a text has these forms if and only if it has no fault and
its tokens derive the forms. Tokens have one derivation at most. A call or a quoted list carries the
line and the column at which its opening token stands in the text. -/
theorem parse_ok_iff_derives (file source : String) (forms : List Form) :
    (parse file source = .ok forms ↔
      ∃ ts, (Tokens.ofString source).all? = some ts ∧ ∃! ds, Derives file ts forms ds) ∧
    (∀ ds ds', Derivation.tokensAll ds = Derivation.tokensAll ds' → ds = ds') ∧
    (parse file source = .ok forms → ∀ form ∈ forms, ∀ (g : Grouping) (items : List Form)
      (l : Location), g ≠ .vector → (g.form items l).Occurs form →
      ∃ before c after, source.toList = before ++ c :: after ∧
        (Lexeme.scan c after).outcome = .ok g.opening ∧
        l = ⟨file, Position.start.past before⟩) := by
  refine ⟨?_, fun ds ds' => Derivation.eq_of_tokensAll, ?_⟩
  · rw [exists_derives_iff]
    constructor
    · rintro ⟨ts, hts, ds, hds⟩
      refine ⟨ts, hts, ds, hds, fun ds' hds' => ?_⟩
      exact Derivation.eq_of_tokensAll (hds'.tokens.trans hds.tokens.symm)
    · rintro ⟨ts, hts, ds, hds, -⟩
      exact ⟨ts, hts, ds, hds⟩
  · intro hparse form hform g items l hg hoccurs
    obtain ⟨ts, hts, ds, rfl, rfl, -⟩ := exists_derives_iff.1 hparse
    rw [Derivation.formAll_eq_map] at hform
    obtain ⟨d, hd, rfl⟩ := List.mem_map.1 hform
    obtain ⟨p, rfl, hp⟩ := Derivation.exists_opening hg hoccurs
    have hmem : (g.opening, p) ∈ Derivation.tokensAll ds := by
      rw [Derivation.tokensAll_eq_flatMap]
      exact List.mem_flatMap.2 ⟨d, hd, hp⟩
    obtain ⟨before, c, after, hsource, rfl, hscan⟩ := Tokens.exists_place hts hmem
    exact ⟨before, c, after, hsource, hscan, rfl⟩

/-- A quoted list as the value of a table entry, on the second line. -/
theorem parse_ok_iff_derives_quoted :
    let forms : List Form := [.table [(.text "k", .quoted [.symbol "x"] ⟨"a", 2, 3⟩)]]
    parse "a" "\x7bk\n  '(x)\x7d" = .ok forms ∧
      (∃ ts, (Tokens.ofString "\x7bk\n  '(x)\x7d").all? = some ts ∧
        ∃! ds, Derives "a" ts forms ds) ∧
      ∃ before c after, "\x7bk\n  '(x)\x7d".toList = before ++ c :: after ∧
        (Lexeme.scan c after).outcome = .ok .quoting ∧
        (⟨"a", 2, 3⟩ : Location) = ⟨"a", Position.start.past before⟩ := by
  intro forms
  have hparse : parse "a" "\x7bk\n  '(x)\x7d" = .ok forms := by cbv
  have hderives := parse_ok_iff_derives "a" "\x7bk\n  '(x)\x7d" forms
  refine ⟨hparse, hderives.1.1 hparse, ?_⟩
  exact hderives.2.2 hparse _ (List.mem_singleton_self _) .quoted _ _ (by decide)
    (.inside (List.mem_singleton_self _) .self)

end Lisplet
