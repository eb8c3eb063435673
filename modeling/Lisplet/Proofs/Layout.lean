import Mathlib
import Lisplet.Proofs.Frames
import Lisplet.Proofs.Grammar
import Lisplet.Proofs.Locality
import Lisplet.Proofs.Places

/-!
Layout never changes meaning. Texts with the same tokens, wherever these stand and whatever gaps are
between them, are read as the same forms at other places or fail for the same fault; and a run looks
at places only to keep them, in the bodies of functions, and to name them in traces. So the two runs
differ in nothing else.
-/

namespace Lisplet

/-! Reading without regard to places. -/

/-- The forms, or the fault that was found first, without regard to places. -/
def unplacedReading (r : Except ReadError (List Form)) : Except ReadFault (List Form) :=
  (r.map (List.map Form.unplaced)).mapError ReadError.fault

theorem Tokens.relocate_behind (g : Position → Position) (ts : List (Token × Position))
    (rest : Tokens) :
    (behind ts rest).relocate g = behind (ts.map fun t => (t.1, g t.2)) (rest.relocate g) := by
  induction ts with
  | nil => rfl
  | cons t ts ih => rw [behind_cons, relocate, ih, List.map_cons, behind_cons]

/-- All tokens moved to one place are told apart by nothing but what they are. -/
theorem Tokens.relocate_const {tokens tokens' : Tokens} {ts ts' : List (Token × Position)}
    (h : tokens.all? = some ts) (h' : tokens'.all? = some ts')
    (hts : ts.map Prod.fst = ts'.map Prod.fst) (q : Position) :
    (tokens.relocate fun _ => q) = tokens'.relocate fun _ => q := by
  obtain ⟨p, rfl⟩ := all?_eq_some_iff.1 h
  obtain ⟨p', rfl⟩ := all?_eq_some_iff.1 h'
  have hmoved : (ts.map fun t => (t.1, q)) = ts'.map fun t => (t.1, q) := by
    simpa only [List.map_map, Function.comp_def] using congrArg (List.map fun t => (t, q)) hts
  rw [relocate_behind, relocate_behind, hmoved]
  rfl

theorem forms_unplaced (file source : String) :
    Reading.forms "" (.form []) ((Tokens.ofString source).relocate fun _ => .start) =
      ((readForms file source).1.map Form.unplaced,
        (readForms file source).2.map (ReadError.relocate fun _ => ⟨"", .start⟩)) :=
  Reading.forms_relocate (fun _ => rfl) (.form []) (.ofString source)

theorem unplacedReading_eq {source source' : String} {ts ts' : List (Token × Position)}
    (h : (Tokens.ofString source).all? = some ts) (h' : (Tokens.ofString source').all? = some ts')
    (hts : ts.map Prod.fst = ts'.map Prod.fst) (file file' : String) :
    unplacedReading (parse file source) = unplacedReading (parse file' source') := by
  have hboth := forms_unplaced file source
  rw [Tokens.relocate_const h h' hts, forms_unplaced file' source'] at hboth
  unfold parse
  generalize readForms file source = r, readForms file' source' = r' at hboth
  obtain ⟨forms, e⟩ := r
  obtain ⟨forms', e'⟩ := r'
  obtain ⟨hforms, he⟩ := Prod.mk.inj hboth
  cases e with
  | none =>
    obtain rfl : e' = none := Option.map_eq_none_iff.1 he
    exact congrArg Except.ok hforms.symm
  | some e =>
    obtain ⟨e', rfl, heq⟩ := Option.map_eq_some_iff.1 he
    exact congrArg Except.error (congrArg ReadError.fault heq).symm

/-! Likeness and places. -/

/-- Every name counts, functions keep their numbers, and places are of no concern. -/
structure Likeness.Placeless (k : Likeness) : Prop where
  name (x : String) : k.name x
  place (l l' : Location) : k.place l l'
  number {i j : Nat} (h : k.number i j) : i = j

variable {k : Likeness}

mutual

/-- Forms that have become the same by being moved are alike, if places are of no concern. -/
theorem Form.like_of_relocate (hk : k.Placeless) {c : Location → Location} {f g : Form}
    (h : f.relocate c = g.relocate c) : f.Like k g := by
  cases f with
  | atom a => cases g <;> cases h; exact .atom a
  | symbol x => cases g <;> cases h; exact .symbol (hk.name x)
  | call items l =>
    cases g with
    | call items' l' =>
      exact .call (hk.place l l') (Form.likeAll_of_relocate hk (Form.call.inj h).1)
    | _ => cases h
  | quoted items l =>
    cases g with
    | quoted items' l' =>
      exact .quoted (hk.place l l') (Form.likeAll_of_relocate hk (Form.quoted.inj h).1)
    | _ => cases h
  | vector items =>
    cases g with
    | vector items' => exact .vector (Form.likeAll_of_relocate hk (Form.vector.inj h))
    | _ => cases h
  | table entries =>
    cases g with
    | table entries' =>
      obtain ⟨hkeys, hforms⟩ := Form.likeEntries_of_relocate hk (Form.table.inj h)
      exact .table hkeys hforms
    | _ => cases h

theorem Form.likeAll_of_relocate (hk : k.Placeless) {c : Location → Location} {fs gs : List Form}
    (h : Form.relocateAll c fs = Form.relocateAll c gs) : List.Forall₂ (Form.Like k) fs gs := by
  cases fs with
  | nil =>
    cases gs with
    | nil => exact .nil
    | cons g gs => cases h
  | cons f fs =>
    cases gs with
    | nil => cases h
    | cons g gs =>
      obtain ⟨hf, hfs⟩ := List.cons.inj h
      exact .cons (Form.like_of_relocate hk hf) (Form.likeAll_of_relocate hk hfs)

theorem Form.likeEntries_of_relocate (hk : k.Placeless) {c : Location → Location}
    {es es' : List (Atom × Form)} (h : Form.relocateEntries c es = Form.relocateEntries c es') :
    es.map Prod.fst = es'.map Prod.fst ∧
      List.Forall₂ (Form.Like k) (es.map Prod.snd) (es'.map Prod.snd) := by
  cases es with
  | nil =>
    cases es' with
    | nil => exact ⟨rfl, .nil⟩
    | cons e' es' => cases h
  | cons e es =>
    cases es' with
    | nil => cases h
    | cons e' es' =>
      obtain ⟨he, hes⟩ := List.cons.inj h
      obtain ⟨hkey, hform⟩ := Prod.mk.inj he
      obtain ⟨hkeys, hforms⟩ := Form.likeEntries_of_relocate hk hes
      exact ⟨congrArg₂ List.cons hkey hkeys, .cons (Form.like_of_relocate hk hform) hforms⟩

end

theorem Form.relocateEntries_eq_zip (c : Location → Location) (entries : List (Atom × Form)) :
    relocateEntries c entries =
      (entries.map Prod.fst).zip ((entries.map Prod.snd).map (relocate c)) := by
  rw [relocateEntries_eq, List.map_map, List.zip_map']
  rfl

theorem Form.Like.relocate {c : Location → Location} (hc : ∀ {l l'}, k.place l l' → c l = c l')
    {f g : Form} (h : f.Like k g) : f.relocate c = g.relocate c := by
  refine h.induct (P := fun f g => f.relocate c = g.relocate c) (fun a => rfl) (fun _ => rfl)
    ?_ ?_ ?_ ?_
  · intro items items' l l' hl h
    simp only [Form.relocate, relocateAll_eq, hc hl, map_eq_of_forall₂ h fun _ _ he => he]
  · intro items items' l l' hl h
    simp only [Form.relocate, relocateAll_eq, hc hl, map_eq_of_forall₂ h fun _ _ he => he]
  · intro items items' h
    simp only [Form.relocate, relocateAll_eq, map_eq_of_forall₂ h fun _ _ he => he]
  · intro entries entries' hkeys h
    simp only [Form.relocate, relocateEntries_eq_zip, hkeys,
      map_eq_of_forall₂ h fun _ _ he => he]

theorem Form.Like.unplaced {f g : Form} (h : f.Like k g) : f.unplaced = g.unplaced :=
  h.relocate fun _ => rfl

theorem Form.Like.kind {f g : Form} (h : f.Like k g) : f.kind = g.kind := by
  cases h <;> rfl

/-! Values, tables and failures without regard to the places they keep. -/

def Variant.unplaced (v : Variant) : Variant := ⟨v.params, v.body.map Form.unplaced⟩

def Function.unplaced : Function → Function
  | .closure id name variants => .closure id name (variants.map Variant.unplaced)
  | f => f

mutual

def Value.unplaced : Value → Value
  | .list items => .list (unplacedAll items)
  | .function f => .function f.unplaced
  | v => v

def Value.unplacedAll : List Value → List Value
  | [] => []
  | v :: vs => v.unplaced :: unplacedAll vs

end

def Table.unplaced (t : Table) : Table := t.map fun e => (e.1.unplaced, e.2.unplaced)

def OpenCall.unplaced (c : OpenCall) : OpenCall := ⟨c.items.map Form.unplaced, "", .start⟩

def Misshape.unplaced : Misshape → Misshape
  | notSymbol form => notSymbol form.unplaced
  | variantNotList form => variantNotList form.unplaced
  | variantWithoutParams form => variantWithoutParams form.unplaced
  | paramNotSymbol form => paramNotSymbol form.unplaced
  | bindingNotSymbol form => bindingNotSymbol form.unplaced
  | m => m

def Cause.unplaced : Cause → Cause
  | unreadable e => unreadable (e.relocate fun _ => ⟨"", .start⟩)
  | misshapen special m => misshapen special m.unplaced
  | c => c

def Failure.unplaced (e : Failure) : Failure :=
  ⟨e.cause.unplaced, e.trace.map (List.map OpenCall.unplaced)⟩

/-- The message, without the place where a reading stopped. -/
def Cause.wording : Cause → String
  | unreadable e => e.fault.message
  | c => c.message

theorem Variant.Like.unplaced {v w : Variant} (h : v.Like k w) : v.unplaced = w.unplaced := by
  unfold Variant.unplaced
  rw [h.params, map_eq_of_forall₂ h.body fun _ _ hf => hf.unplaced]

theorem Function.Like.unplaced (hk : k.Placeless) {f g : Function} (h : f.Like k g) :
    f.unplaced = g.unplaced := by
  cases h with
  | member hij m => rw [hk.number hij]
  | closure hij name hv =>
    simp only [Function.unplaced]
    rw [hk.number hij, map_eq_of_forall₂ hv fun _ _ hvariant => hvariant.unplaced]
  | _ => rfl

mutual

theorem Value.Like.unplaced (hk : k.Placeless) {v w : Value} (h : v.Like k w) :
    v.unplaced = w.unplaced := by
  cases h with
  | list h => simp only [Value.unplaced, Value.Like.unplacedAll hk h]
  | function h => simp only [Value.unplaced, h.unplaced hk]
  | _ => rfl

theorem Value.Like.unplacedAll (hk : k.Placeless) {vs ws : List Value}
    (h : List.Forall₂ (Value.Like k) vs ws) : Value.unplacedAll vs = Value.unplacedAll ws := by
  cases h with
  | nil => rfl
  | cons hv hvs => simp only [Value.unplacedAll, hv.unplaced hk, Value.Like.unplacedAll hk hvs]

end

theorem Table.Like.unplaced (hk : k.Placeless) {t t' : Table} (h : t.Like k t') :
    Table.unplaced t = Table.unplaced t' :=
  map_eq_of_forall₂ h fun _ _ he => Prod.ext (he.1.unplaced hk) (he.2.unplaced hk)

theorem OpenCall.Like.unplaced {c c' : OpenCall} (h : c.Like k c') : c.unplaced = c'.unplaced := by
  unfold OpenCall.unplaced
  rw [map_eq_of_forall₂ h.items fun _ _ hf => hf.unplaced]

theorem Misshape.Like.unplaced {m m' : Misshape} (h : m.Like k m') : m.unplaced = m'.unplaced := by
  cases h with
  | refl m => rfl
  | notSymbol hf | variantNotList hf | variantWithoutParams hf | paramNotSymbol hf
  | bindingNotSymbol hf => simp only [Misshape.unplaced, hf.unplaced]

theorem Misshape.Like.message {m m' : Misshape} (h : m.Like k m') : m.message = m'.message := by
  cases h with
  | refl m => rfl
  | notSymbol hf | variantNotList hf | paramNotSymbol hf =>
    unfold Misshape.message
    dsimp only
    rw [hf.kind, hf.render]
  | variantWithoutParams hf | bindingNotSymbol hf =>
    unfold Misshape.message
    dsimp only
    rw [hf.render]

theorem Cause.Like.unplaced {c c' : Cause} (h : c.Like k c') : c.unplaced = c'.unplaced := by
  cases h with
  | refl c => rfl
  | misshapen special hm => simp only [Cause.unplaced, hm.unplaced]

theorem Cause.Like.wording {c c' : Cause} (h : c.Like k c') : c.wording = c'.wording := by
  cases h with
  | refl c => rfl
  | misshapen special hm =>
    unfold Cause.wording Cause.message
    dsimp only
    rw [hm.message]

theorem Failure.Like.unplaced {e e' : Failure} (h : e.Like k e') : e.unplaced = e'.unplaced := by
  have htrace := h.trace
  unfold Failure.unplaced
  rw [h.cause.unplaced]
  generalize e.trace = trace, e'.trace = trace' at htrace
  cases htrace with
  | none => rfl
  | some hc => simp only [Option.map_some, map_eq_of_forall₂ hc fun _ _ hcall => hcall.unplaced]

/-! Runs without regard to places. -/

/-- The value or the failure, without regard to places. -/
def Outcome.unplaced (r : Outcome Value) : Except Failure Value :=
  (r.result.map Value.unplaced).mapError Failure.unplaced

/-- The runs end alike and leave the same behind, but for places: the same value or failure with the
same wording, the same globals, tables and texts written. -/
structure SameButPlaces (r r' : Outcome Value) : Prop where
  result : r.unplaced = r'.unplaced
  wording {e e' : Failure} (he : r.result = .error e) (he' : r'.result = .error e') :
    e.cause.wording = e'.cause.wording
  globals (x : String) : (r.session.globals.get? x).map Value.unplaced =
    (r'.session.globals.get? x).map Value.unplaced
  size : r.session.heap.size = r'.session.heap.size
  heap (id : TableId) :
    Table.unplaced (r.session.heap.get id) = Table.unplaced (r'.session.heap.get id)
  output : r.session.output = r'.session.output
  diagnostics : r.session.diagnostics = r'.session.diagnostics
  fresh : r.session.fresh = r'.session.fresh
  frames : r.session.SameFrames r'.session

/-- The one function that shows places to a program, by giving it the trace, is out of reach. -/
def Session.Untraced (s : Session) : Prop := ¬InReach .univ .empty s (.function (.probe .trace))

/-- What can be got hold of in a session, wherever forms stand. -/
def Likeness.anywhere (s : Session) : Likeness :=
  .around .empty s (fun _ _ => True) (· ≠ .trace) fun _ _ h => absurd rfl h

section Anywhere

variable {s : Session}

theorem Likeness.anywhere_placeless : (Likeness.anywhere s).Placeless :=
  ⟨fun _ => trivial, fun _ _ => trivial, fun h => h⟩

theorem Form.like_anywhere (f : Form) : f.Like (.anywhere s) f := f.like_around fun _ => trivial

theorem Session.Untraced.like (h : s.Untraced) : s.Like (.anywhere s) s := by
  refine Session.like_around (fun _ => trivial) fun p hp => ?_
  rintro rfl
  exact h hp

theorem Session.Like.untraced {t : Session} (h : t.Like (.anywhere s) t) : t.Untraced := by
  rintro ⟨x, -, v, hv | hv, hreach⟩
  · cases hv
  · have hvalue := h.globals.value trivial hv
    cases hvalue.of_reaches h.heap hreach with
    | function hf =>
      cases hf with
      | probe hp => exact hp rfl

theorem SameButPlaces.of_outcomes {access : Access} {r r' : Outcome Value}
    (h : (Accord.sparing access (.anywhere s) s s).Outcomes (Value.Like (.anywhere s)) r r')
    (hr : s.SameFrames r.session) (hr' : s.SameFrames r'.session) : SameButPlaces r r' := by
  have hk : (Likeness.anywhere s).Placeless := Likeness.anywhere_placeless
  obtain ⟨hlike, hleft, hright, output, diagnostics, hs, hs'⟩ := h.sessions
  refine ⟨?_, fun he he' => ?_, fun x => ?_, hlike.heap.size, fun id => ?_, ?_, ?_, ?_, ?_, ?_⟩
  · cases h with
    | ok hv _ => exact congrArg Except.ok (hv.unplaced hk)
    | error he _ => exact congrArg Except.error he.unplaced
  · cases h with
    | ok _ _ => cases he
    | error hf _ =>
      cases he
      cases he'
      exact hf.cause.wording
  · have hget := hlike.globals.get? (hk.name x)
    generalize r.session.globals.get? x = v, r'.session.globals.get? x = w at hget
    cases hget with
    | none => rfl
    | some hv => exact congrArg some (hv.unplaced hk)
  · by_cases hid : (Likeness.anywhere s).table id
    · exact (hlike.heap.get hid).unplaced hk
    · -- a table out of reach is as it was, in both runs
      rw [hleft.heap hid, hright.heap hid]
  · rw [hs.1, hs'.1]
  · rw [hs.2, hs'.2]
  · exact hk.number (hlike.fresh 0)
  · exact hr'.depth.trans hr.depth.symm
  · exact hr'.calls.trans hr.calls.symm

end Anywhere

namespace Config

theorem runSource_sameButPlaces (config : Config) {file file' source source' : String}
    (hread : unplacedReading (parse file source) = unplacedReading (parse file' source'))
    {s : Session} (hs : s.Untraced) :
    SameButPlaces (config.runSource file source s) (config.runSource file' source' s) := by
  have hframes := config.runSource_sameFrames file source s
  have hframes' := config.runSource_sameFrames file' source' s
  unfold runSource at *
  cases hp : parse file source with
  | ok forms =>
    cases hp' : parse file' source' with
    | ok forms' =>
      rw [hp, hp'] at hread
      have hforms : forms.map Form.unplaced = forms'.map Form.unplaced := Except.ok.inj hread
      have hlike : List.Forall₂ (Form.Like (.anywhere s)) forms forms' := by
        refine Form.likeAll_of_relocate (c := fun _ => ⟨"", .start⟩)
          Likeness.anywhere_placeless ?_
        rwa [Form.relocateAll_eq, Form.relocateAll_eq]
      rw [hp] at hframes
      rw [hp'] at hframes'
      have hrun := agree_runForms (Accord.sparing config.access (.anywhere s) s s) hlike s s
        ⟨hs.like, .refl s s⟩
      exact .of_outcomes hrun hframes hframes'
    | error e' =>
      rw [hp, hp'] at hread
      cases hread
  | error e =>
    cases hp' : parse file' source' with
    | ok forms' =>
      rw [hp, hp'] at hread
      cases hread
    | error e' =>
      rw [hp, hp'] at hread
      have hfault : e.fault = e'.fault := Except.error.inj hread
      -- nothing has been run, so only the places of the fault can differ
      refine ⟨?_, fun he he' => ?_, fun _ => rfl, rfl, fun _ => rfl, rfl, rfl, rfl, .refl s⟩
      · change Except.error (Failure.unplaced _) = Except.error (Failure.unplaced _)
        simp only [Failure.unplaced, Failure.ofCause, Cause.unplaced, ReadError.relocate, hfault]
      · cases he
        cases he'
        exact congrArg ReadFault.message hfault

theorem runSource_untraced (config : Config) (file source : String) (s : Session)
    (h : s.Untraced) : (Outcome.session (config.runSource file source s)).Untraced :=
  (runSource_sessions (Accord.sparing config.access (.anywhere s) s s) Form.like_anywhere file
    source ⟨h.like, .refl s s⟩).like.untraced

end Config

theorem Bindings.mem_of_layer {b : Bindings} {bound : List (String × Value)} {x : String}
    {v : Value} (h : (b.layer bound).get? x = some v) :
    b.get? x = some v ∨ v ∈ bound.map Prod.snd := by
  induction bound generalizing b with
  | nil => exact .inl h
  | cons e bound ih =>
    rcases ih h with hget | hmem
    · rw [get?_insert] at hget
      split at hget
      · cases hget
        exact .inr List.mem_cons_self
      · exact .inl hget
    · exact .inr (List.mem_cons_of_mem _ hmem)

theorem untraced_builtins :
    Session.Untraced { Session.initial with globals := Bindings.empty.layer builtins } := by
  rintro ⟨x, -, v, hv | hv, hreach⟩
  · cases hv
  · rcases Bindings.mem_of_layer hv with hempty | hmem
    · cases hempty
    · simp only [builtins, List.map_append, List.map_map, List.mem_append, List.mem_map,
        Function.comp_apply, List.map_cons, List.map_nil, List.mem_singleton] at hmem
      rcases hmem with (⟨special, -, rfl⟩ | ⟨op, -, rfl⟩) | rfl <;> cases hreach

namespace Config

/-- Two texts with the same tokens are both read or both refused for the same fault, and read as the
same forms but for places. Run from one session they give the same value or failure and leave the
same globals, tables and output behind, again but for places, unless the program could get hold of
the trace; and no program can that has not been handed it. -/
theorem layout_irrelevant (config : Config) :
    (∀ (source source' : String) (ts ts' : List (Token × Position)),
      (Tokens.ofString source).all? = some ts → (Tokens.ofString source').all? = some ts' →
      ts.map Prod.fst = ts'.map Prod.fst → ∀ file file' : String,
      unplacedReading (parse file source) = unplacedReading (parse file' source') ∧
      ∀ s : Session, s.Untraced →
        SameButPlaces (config.runSource file source s) (config.runSource file' source' s)) ∧
    (∀ s, config.start = .ok s → ∀ sources, (config.runAll sources s).Untraced) := by
  refine ⟨fun source source' ts ts' h h' hts file file' => ?_, fun s hs sources => ?_⟩
  · have hread := unplacedReading_eq h h' hts file file'
    exact ⟨hread, fun s hs => config.runSource_sameButPlaces hread hs⟩
  · exact runAll_induct config.runSource_untraced sources
      (start_induct untraced_builtins config.runSource_untraced hs)

/-- A function made by a text on one line, and by the same text on two lines of another file. -/
theorem layout_irrelevant_lines :
    let config : Config := ⟨100, false, .all⟩
    let source := "(fn [] (f))"
    let source' := "(fn[], ; none\n (f))"
    let ts : List (Token × Position) :=
      [(.opening .round, ⟨1, 1⟩), (.symbol "fn", ⟨1, 2⟩), (.opening .square, ⟨1, 5⟩),
        (.closing .square, ⟨1, 6⟩), (.opening .round, ⟨1, 8⟩), (.symbol "f", ⟨1, 9⟩),
        (.closing .round, ⟨1, 10⟩), (.closing .round, ⟨1, 11⟩)]
    let ts' : List (Token × Position) :=
      [(.opening .round, ⟨1, 1⟩), (.symbol "fn", ⟨1, 2⟩), (.opening .square, ⟨1, 4⟩),
        (.closing .square, ⟨1, 5⟩), (.opening .round, ⟨2, 2⟩), (.symbol "f", ⟨2, 3⟩),
        (.closing .round, ⟨2, 4⟩), (.closing .round, ⟨2, 5⟩)]
    let made (l : Location) : Value := .function (.closure 0 none [⟨[], [.call [.symbol "f"] l]⟩])
    let s : Session := { Session.initial with globals := ⟨[("fn", .function (.special .lambda))]⟩ }
    (Tokens.ofString source).all? = some ts ∧ (Tokens.ofString source').all? = some ts' ∧
      ts.map Prod.fst = ts'.map Prod.fst ∧ s.Untraced ∧
      Outcome.result (config.runSource "a" source s) = .ok (made ⟨"a", 1, 8⟩) ∧
      Outcome.result (config.runSource "b" source' s) = .ok (made ⟨"b", 2, 2⟩) ∧
      SameButPlaces (config.runSource "a" source s) (config.runSource "b" source' s) ∧
      ∃ t, config.start = .ok t ∧ (config.runAll [("a", source)] t).Untraced := by
  intro config source source' ts ts' made s
  have hlayout := layout_irrelevant config
  have hts : (Tokens.ofString source).all? = some ts := by cbv
  have hts' : (Tokens.ofString source').all? = some ts' := by cbv
  have hs : s.Untraced := by
    rintro ⟨x, -, v, hv | hv, hreach⟩
    · cases hv
    · obtain ⟨-, rfl⟩ := Prod.mk.inj (List.mem_singleton.1 (Bindings.mem_of_find hv))
      cases hreach
  refine ⟨hts, hts', rfl, hs, ?_, ?_, ?_, _, rfl, hlayout.2 _ rfl _⟩
  · cbv
  · cbv
  · exact (hlayout.1 source source' ts ts' hts hts' rfl "a" "b").2 s hs

end Config

end Lisplet
