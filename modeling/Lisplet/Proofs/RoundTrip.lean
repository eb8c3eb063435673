import Lisplet.Proofs.Nesting

/-!
Reading undoes printing. A form that came out of a text prints as a text that reads as that form
alone, up to the places of its brackets and the sign of a zero; only infinite numbers have no
spelling.
-/

namespace Lisplet

open Lexeme

namespace Atom

/-- Equality with numbers compared as numbers, so that both zeros are one. -/
def alike : Atom → Atom → Bool
  | nil, nil => true
  | bool a, bool b => a == b
  | number x, number y => x == y
  | text s, text t => s == t
  | _, _ => false

def isFinite : Atom → Bool
  | number x => x.isFinite
  | _ => true

end Atom

namespace Form

mutual

/-- Equality up to source locations, with numbers compared as numbers. -/
def alike : Form → Form → Bool
  | atom a, atom b => a.alike b
  | symbol m, symbol n => m == n
  | call fs _, call gs _ => alikeAll fs gs
  | quoted fs _, quoted gs _ => alikeAll fs gs
  | vector fs, vector gs => alikeAll fs gs
  | table ds, table es => alikeEntries ds es
  | _, _ => false

def alikeAll : List Form → List Form → Bool
  | [], [] => true
  | f :: fs, g :: gs => f.alike g && alikeAll fs gs
  | _, _ => false

def alikeEntries : List (Atom × Form) → List (Atom × Form) → Bool
  | [], [] => true
  | (a, f) :: ds, (b, g) :: es => a.alike b && f.alike g && alikeEntries ds es
  | _, _ => false

end

mutual

/-- All numbers written in the form are finite. -/
def isFinite : Form → Bool
  | atom a => a.isFinite
  | symbol _ => true
  | call items _ | quoted items _ | vector items => allFinite items
  | table entries => entriesFinite entries

def allFinite : List Form → Bool
  | [] => true
  | form :: forms => form.isFinite && allFinite forms

def entriesFinite : List (Atom × Form) → Bool
  | [] => true
  | (key, form) :: entries => key.isFinite && form.isFinite && entriesFinite entries

end

theorem allFinite_eq (forms : List Form) : allFinite forms = forms.all isFinite := by
  induction forms with
  | nil => simp [allFinite]
  | cons form forms ih => simp [allFinite, ih]

theorem entriesFinite_eq (entries : List (Atom × Form)) :
    entriesFinite entries = entries.all fun e => e.1.isFinite && e.2.isFinite := by
  induction entries with
  | nil => simp [entriesFinite]
  | cons e entries ih => simp [entriesFinite, ih]

end Form

/-- Every finite atom is spelled by its own text. -/
theorem Atom.exists_spelling {a : Atom} (h : a.isFinite = true) :
    ∃ b : Atom, b.alike a = true ∧ Token.SpelledBy (.atom b) a.render.toList := by
  cases a with
  | nil => exact ⟨.nil, rfl, (⟨by decide, by decide, by decide⟩ : IsWord "nil").spelledBy⟩
  | bool b =>
    refine ⟨.bool b, by simp [alike], ?_⟩
    cases b with
    | false => exact (⟨by decide, by decide, by decide⟩ : IsWord "false").spelledBy
    | true => exact (⟨by decide, by decide, by decide⟩ : IsWord "true").spelledBy
  | number x =>
    obtain ⟨negative, n, htext, hn⟩ := Number.text_eq h
    refine ⟨.number (n.decimal.toNumber negative), hn, ?_⟩
    rw [render, htext]
    exact spelledBy_numeral n negative
  | text s => exact ⟨.text s, by simp [alike], spelledBy_quote s⟩

/-- Items are separated by one blank; what stands behind the first item goes on with the others. -/
theorem joined_cons (item : String) (items : List String) {rest : List Char} (hrest : Stops rest) :
    ∃ cs, (" ".intercalate (item :: items)).toList ++ rest = item.toList ++ cs ∧ Stops cs ∧
      ∀ p, ∃ q, Tokens.ofText p cs = .ofText q ((" ".intercalate items).toList ++ rest) := by
  cases items with
  | nil => exact ⟨rest, by simp, hrest, fun p => ⟨p, by simp⟩⟩
  | cons next items =>
    refine ⟨' ' :: ((" ".intercalate (next :: items)).toList ++ rest), ?_,
      stops_cons (by decide) _, fun p => ⟨p.next ' ', Tokens.ofText_blank p _⟩⟩
    rw [String.intercalate_cons_cons]
    simp

namespace Reading

/-- In front of a terminator or the end, the text of the form reads as a form like it. -/
def ReadsBack (file : String) (outer : List Frame) (f : Form) : Prop :=
  ∀ p rest, Stops rest → ∃ g q, g.alike f = true ∧
    forms file (.form outer) (.ofText p (f.render.toList ++ rest)) =
      resume file (place g outer) (.ofText q rest)

theorem readsBack_items {file : String} {outer : List Frame} {frame : List Form → Frame}
    (hframe : ∀ f items,
      place f (frame items :: outer) = .more (.form (frame (f :: items) :: outer)))
    {fs : List Form} (hfs : ∀ f ∈ fs, ∀ items, ReadsBack file (frame items :: outer) f)
    (items : List Form) (p : Position) {rest : List Char} (hrest : Stops rest) :
    ∃ gs q, Form.alikeAll gs fs = true ∧
      forms file (.form (frame items :: outer))
          (.ofText p ((" ".intercalate (Form.renderItems fs)).toList ++ rest)) =
        forms file (.form (frame (gs.reverse ++ items) :: outer)) (.ofText q rest) := by
  induction fs generalizing items p with
  | nil => exact ⟨[], p, by simp [Form.alikeAll], by simp [Form.renderItems]⟩
  | cons f fs ih =>
    obtain ⟨cs, hcs, hstops, hsep⟩ := joined_cons f.render (Form.renderItems fs) hrest
    obtain ⟨g, q, hg, hread⟩ := hfs f (by simp) items p cs hstops
    obtain ⟨q, hq⟩ := hsep q
    obtain ⟨gs, q, hgs, hrest⟩ := ih (fun f hf => hfs f (by simp [hf])) (g :: items) q
    refine ⟨g :: gs, q, by simp [Form.alikeAll, hg, hgs], ?_⟩
    rw [Form.renderItems, hcs, hread, hframe, resume, hq, hrest]
    simp

theorem readsBack_entries {file : String} {outer : List Frame} {ds : List (Atom × Form)}
    (hkeys : ∀ d ∈ ds, d.1.isFinite = true)
    (hds : ∀ d ∈ ds, ∀ entries key, ReadsBack file (.entry entries key :: outer) d.2)
    (entries : List (Atom × Form)) (p : Position) {rest : List Char} (hrest : Stops rest) :
    ∃ es q, Form.alikeEntries es ds = true ∧
      forms file (.key entries outer)
          (.ofText p ((" ".intercalate (Form.renderEntries ds)).toList ++ rest)) =
        forms file (.key (es.reverse ++ entries) outer) (.ofText q rest) := by
  induction ds generalizing entries p with
  | nil => exact ⟨[], p, by simp [Form.alikeEntries], by simp [Form.renderEntries]⟩
  | cons d ds ih =>
    obtain ⟨key, f⟩ := d
    obtain ⟨cs, hcs, hstops, hsep⟩ :=
      joined_cons key.render (f.render :: Form.renderEntries ds) hrest
    obtain ⟨b, hb, hspelled⟩ := Atom.exists_spelling (hkeys (key, f) (by simp))
    obtain ⟨q, hq⟩ := hsep (p.past key.render.toList)
    obtain ⟨cs', hcs', hstops', hsep'⟩ := joined_cons f.render (Form.renderEntries ds) hrest
    obtain ⟨g, q', hg, hread⟩ := hds (key, f) (by simp) entries b q cs' hstops'
    obtain ⟨q', hq'⟩ := hsep' q'
    obtain ⟨es, q'', hes, hrest⟩ := ih (fun d hd => hkeys d (by simp [hd]))
      (fun d hd => hds d (by simp [hd])) ((b, g) :: entries) q'
    refine ⟨(b, g) :: es, q'', by simp [Form.alikeEntries, hb, hg, hes], ?_⟩
    rw [Form.renderEntries, hcs, hspelled p cs hstops, forms_next]
    change forms file (.form (.entry entries b :: outer)) _ = _
    rw [hq, hcs', hread]
    change forms file (.key ((b, g) :: entries) outer) _ = _
    rw [hq', hrest]
    simp

/-- Items that read back, and the bracket that closes them. -/
theorem readsBack_closed {file : String} {outer : List Frame} (frame : List Form → Frame)
    (form : List Form → Form)
    (hframe : ∀ f items,
      place f (frame items :: outer) = .more (.form (frame (f :: items) :: outer)))
    {fs : List Form} (hfs : ∀ f ∈ fs, ∀ items, ReadsBack file (frame items :: outer) f)
    {c : Char} {b : Bracket} (hc : bracket? c = some (.closing b))
    (hclose : ∀ items, close b (frame items :: outer) = .ok (place (form items.reverse) outer))
    (p : Position) (rest : List Char) :
    ∃ gs q, Form.alikeAll gs fs = true ∧
      forms file (.form (frame [] :: outer))
          (.ofText p ((" ".intercalate (Form.renderItems fs)).toList ++ c :: rest)) =
        resume file (place (form gs) outer) (.ofText q rest) := by
  obtain ⟨gs, q, hgs, hread⟩ := readsBack_items hframe hfs [] p
    (stops_cons (isTerminator_of_bracket? hc) rest)
  refine ⟨gs, q.next c, hgs, ?_⟩
  rw [hread, Tokens.ofText_bracket hc, forms_next]
  simp [step, hclose]

theorem readsBack_call {file : String} {outer : List Frame} (houter : outer.length < maxNesting)
    {items : List Form} (h : ∀ f ∈ items, ∀ frame, ReadsBack file (frame :: outer) f)
    (l : Location) : ReadsBack file outer (.call items l) := by
  intro p rest hrest
  have htext : (Form.call items l).render.toList ++ rest =
      '(' :: ((" ".intercalate (Form.renderItems items)).toList ++ ')' :: rest) := by
    simp [Form.render]
  obtain ⟨gs, q, hgs, hread⟩ := readsBack_closed (.call · ⟨file, p⟩) (.call · ⟨file, p⟩)
    (fun _ _ => rfl) (fun f hf _ => h f hf _) (c := ')') rfl
    (fun _ => rfl) (p.next '(') rest
  refine ⟨.call gs ⟨file, p⟩, q, by simpa [Form.alike] using hgs, ?_⟩
  rw [htext, Tokens.ofText_bracket rfl, forms_next]
  simp only [step, enter_of_lt houter]
  exact hread

theorem readsBack_quoted {file : String} {outer : List Frame} (houter : outer.length < maxNesting)
    {items : List Form} (h : ∀ f ∈ items, ∀ frame, ReadsBack file (frame :: outer) f)
    (l : Location) : ReadsBack file outer (.quoted items l) := by
  intro p rest hrest
  have htext : (Form.quoted items l).render.toList ++ rest =
      '\'' :: '(' :: ((" ".intercalate (Form.renderItems items)).toList ++ ')' :: rest) := by
    simp [Form.render]
  obtain ⟨gs, q, hgs, hread⟩ := readsBack_closed (.quoted · ⟨file, p⟩) (.quoted · ⟨file, p⟩)
    (fun _ _ => rfl) (fun f hf _ => h f hf _) (c := ')') rfl
    (fun _ => rfl) (p.past ['\'', '(']) rest
  refine ⟨.quoted gs ⟨file, p⟩, q, by simpa [Form.alike] using hgs, ?_⟩
  rw [htext, Tokens.ofText_of_scan (by decide) (scan_quoting _), forms_next]
  simp only [step, enter_of_lt houter]
  exact hread

theorem readsBack_vector {file : String} {outer : List Frame} (houter : outer.length < maxNesting)
    {items : List Form} (h : ∀ f ∈ items, ∀ frame, ReadsBack file (frame :: outer) f) :
    ReadsBack file outer (.vector items) := by
  intro p rest hrest
  have htext : (Form.vector items).render.toList ++ rest =
      '[' :: ((" ".intercalate (Form.renderItems items)).toList ++ ']' :: rest) := by
    simp [Form.render]
  obtain ⟨gs, q, hgs, hread⟩ := readsBack_closed .vector .vector (fun _ _ => rfl)
    (fun f hf _ => h f hf _) (c := ']') rfl (fun _ => rfl) (p.next '[') rest
  refine ⟨.vector gs, q, by simpa [Form.alike] using hgs, ?_⟩
  rw [htext, Tokens.ofText_bracket rfl, forms_next]
  simp only [step, enter_of_lt houter]
  exact hread

theorem readsBack_table {file : String} {outer : List Frame} (houter : outer.length < maxNesting)
    {entries : List (Atom × Form)} (hkeys : ∀ e ∈ entries, e.1.isFinite = true)
    (h : ∀ e ∈ entries, ∀ frame, ReadsBack file (frame :: outer) e.2) :
    ReadsBack file outer (.table entries) := by
  intro p rest hrest
  have htext : (Form.table entries).render.toList ++ rest =
      '\x7b' :: ((" ".intercalate (Form.renderEntries entries)).toList ++ '\x7d' :: rest) := by
    simp [Form.render]
  obtain ⟨es, q, hes, hread⟩ := readsBack_entries hkeys (fun e he _ _ => h e he _) []
    (p.next '\x7b') (stops_cons (c := '\x7d') (by decide) rest)
  refine ⟨.table es, q.next '\x7d', by simpa [Form.alike] using hes, ?_⟩
  rw [htext, Tokens.ofText_bracket rfl, forms_next]
  simp only [step, enter_of_lt houter]
  rw [resume, hread, Tokens.ofText_bracket rfl, forms_next]
  simp [step]

/-- A form that nests no deeper than the brackets around it allow reads back. -/
theorem readsBack {file : String} {k : Nat} {f : Form} (hf : f.Readable k)
    (hfinite : f.isFinite = true) {outer : List Frame} (houter : outer.length + k ≤ maxNesting) :
    ReadsBack file outer f := by
  induction hf generalizing outer with
  | atom a =>
    intro p rest hrest
    obtain ⟨b, hb, hspelled⟩ := Atom.exists_spelling hfinite
    refine ⟨.atom b, p.past a.render.toList, by simpa [Form.alike] using hb, ?_⟩
    rw [Form.render, hspelled p rest hrest, forms_next]
    rfl
  | @symbol k name h =>
    intro p rest hrest
    refine ⟨.symbol name, p.past name.toList, by simp [Form.alike], ?_⟩
    rw [Form.render, h.spelledBy p rest hrest, forms_next]
    rfl
  | call l h ih =>
    rw [Form.isFinite, Form.allFinite_eq, List.all_eq_true] at hfinite
    exact readsBack_call (by omega)
      (fun f hf _ => ih f hf (hfinite f hf) (by rw [List.length_cons]; omega)) l
  | quoted l h ih =>
    rw [Form.isFinite, Form.allFinite_eq, List.all_eq_true] at hfinite
    exact readsBack_quoted (by omega)
      (fun f hf _ => ih f hf (hfinite f hf) (by rw [List.length_cons]; omega)) l
  | vector h ih =>
    rw [Form.isFinite, Form.allFinite_eq, List.all_eq_true] at hfinite
    exact readsBack_vector (by omega)
      fun f hf _ => ih f hf (hfinite f hf) (by rw [List.length_cons]; omega)
  | @table k entries h ih =>
    rw [Form.isFinite, Form.entriesFinite_eq, List.all_eq_true] at hfinite
    have hentry : ∀ e ∈ entries, e.1.isFinite = true ∧ e.2.isFinite = true := fun e he => by
      simpa using hfinite e he
    exact readsBack_table (by omega) (fun e he => (hentry e he).1) fun e he _ =>
      ih e.2 (List.mem_map_of_mem he) (hentry e he).2 (by rw [List.length_cons]; omega)

end Reading

/-- Reading undoes printing, for every part of what a text reads as. -/
theorem parse_render {file source : String} {forms : List Form} (h : parse file source = .ok forms)
    {f n : Form} (hf : f ∈ forms) (hn : n.Occurs f) (hfinite : n.isFinite = true) (name : String) :
    ∃ m, parse name n.render = .ok [m] ∧ m.alike n = true := by
  obtain ⟨k, hk, hreadable⟩ := (parse_readable h f hf).of_occurs hn
  obtain ⟨m, q, hm, hread⟩ := @Reading.readsBack name k n hreadable hfinite []
    (by simpa using hk) .start [] stops_nil
  refine ⟨m, ?_, hm⟩
  rw [List.append_nil] at hread
  rw [parse, readForms, Tokens.ofString_eq, hread]
  rfl

theorem parse_render_quoted :
    let n : Form :=
      .quoted [.atom (.number (Number.ofPattern true 0)), .atom (.text "\n")] ⟨"a", 1, 4⟩
    parse "a" "\x7bk '(-0 \"\\n\")\x7d" = .ok [.table [(.text "k", n)]] ∧ n.isFinite = true ∧
      ∃ m, parse "b" n.render = .ok [m] ∧ m.alike n = true := by
  intro n
  have hparse : parse "a" "\x7bk '(-0 \"\\n\")\x7d" = .ok [.table [(.text "k", n)]] := by cbv
  have hfinite : n.isFinite = true := by cbv
  exact ⟨hparse, hfinite,
    parse_render hparse (List.mem_singleton_self _) (.inside (List.mem_singleton_self n) .self)
      hfinite "b"⟩

end Lisplet
