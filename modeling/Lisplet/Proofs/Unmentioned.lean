import Lisplet.Proofs.Numbering

/-!
Names that are not mentioned cannot interfere. Free names are looked up where a function is called,
so a run may depend on every name that occurs in the form or in a function it can get hold of, but
on no other: two runs whose scopes and globals agree on these names are the same run. They may only
number the functions they make differently, if functions had been made before in one session that
had not been made in the other.
-/

namespace Lisplet

namespace Form

mutual

/-- The symbols of a form, in order. -/
def names : Form → List String
  | atom _ => []
  | symbol x => [x]
  | call items _ | quoted items _ | vector items => namesAll items
  | table entries => namesEntries entries

def namesAll : List Form → List String
  | [] => []
  | f :: fs => names f ++ namesAll fs

def namesEntries : List (Atom × Form) → List String
  | [] => []
  | (_, f) :: entries => names f ++ namesEntries entries

end

theorem namesAll_eq (fs : List Form) : namesAll fs = fs.flatMap names := by
  induction fs with
  | nil => rfl
  | cons f fs ih => rw [namesAll, ih, List.flatMap_cons]

theorem namesEntries_eq (entries : List (Atom × Form)) :
    namesEntries entries = (entries.map Prod.snd).flatMap names := by
  induction entries with
  | nil => rfl
  | cons e entries ih => rw [namesEntries, ih, List.map_cons, List.flatMap_cons]

theorem mem_names_of_mentions {f : Form} {x : String} (h : f.Mentions x) : x ∈ f.names := by
  induction h with
  | self => exact List.mem_singleton_self x
  | @inside f g hg _ ih =>
    have hmem : x ∈ f.children.flatMap names := List.mem_flatMap.2 ⟨g, hg, ih⟩
    cases f with
    | atom | symbol => cases hg
    | call | quoted | vector => simpa only [names, namesAll_eq, children] using hmem
    | table => simpa only [names, namesEntries_eq, children] using hmem

end Form

/-! What can be got hold of. -/

/-- Through items of lists and through keys and values of tables. -/
inductive Value.Reaches (h : Heap) : Value → Value → Prop
  | self (v : Value) : Reaches h v v
  | item {items : List Value} {v w : Value} (hv : v ∈ items) (hw : Reaches h v w) :
      Reaches h (.list items) w
  | key {id : TableId} {e : Value × Value} {w : Value} (he : e ∈ h.get id)
      (hw : Reaches h e.1 w) : Reaches h (.table id) w
  | value {id : TableId} {e : Value × Value} {w : Value} (he : e ∈ h.get id)
      (hw : Reaches h e.2 w) : Reaches h (.table id) w

theorem Value.Reaches.trans {h : Heap} {u v w : Value} (huv : u.Reaches h v)
    (hvw : v.Reaches h w) : u.Reaches h w := by
  induction huv with
  | self => exact hvw
  | item hv _ ih => exact .item hv (ih hvw)
  | key he _ ih => exact .key he (ih hvw)
  | value he _ ih => exact .value he (ih hvw)

/-- From what the scope or the globals bind to one of the names. -/
def InReach (N : Set String) (scope : Bindings) (s : Session) (w : Value) : Prop :=
  ∃ x ∈ N, ∃ v, (scope.get? x = some v ∨ s.globals.get? x = some v) ∧ v.Reaches s.heap w

theorem InReach.trans {N : Set String} {scope : Bindings} {s : Session} {v w : Value}
    (hv : InReach N scope s v) (hw : v.Reaches s.heap w) : InReach N scope s w := by
  obtain ⟨x, hx, u, hu, huv⟩ := hv
  exact ⟨x, hx, u, hu, huv.trans hw⟩

theorem InReach.entry {N : Set String} {scope : Bindings} {s : Session} {id : TableId}
    (h : InReach N scope s (.table id)) {e : Value × Value} (he : e ∈ s.heap.get id) :
    InReach N scope s e.1 ∧ InReach N scope s e.2 :=
  ⟨h.trans (.key he (.self _)), h.trans (.value he (.self _))⟩

/-- The names are all that a run can come to look up. The one function that would see more, by
counting the names in scope, is not among what it can get hold of. -/
structure Covers (N : Set String) (scope : Bindings) (form : Form) (s : Session) : Prop where
  form : ∀ x, form.Mentions x → x ∈ N
  bodies : ∀ id name variants, InReach N scope s (.function (.closure id name variants)) →
    ∀ variant ∈ variants, ∀ f ∈ variant.body, ∀ x, f.Mentions x → x ∈ N
  locals : ¬InReach N scope s (.function (.probe .locals))

/-! Numbers of functions. -/

theorem Value.Made.of_reaches {n : Nat} {h : Heap}
    (hh : ∀ id, ∀ e ∈ h.get id, e.1.Made n ∧ e.2.Made n) {v w : Value} (hv : v.Made n)
    (hw : v.Reaches h w) : w.Made n := by
  induction hw with
  | self => exact hv
  | item hi _ ih => exact ih fun f hf => hv f (.item hi hf)
  | key he _ ih => exact ih (hh _ _ he).1
  | value he _ ih => exact ih (hh _ _ he).2

theorem Session.Numbered.made {N : Set String} {scope : Bindings} {s : Session}
    (h : s.Numbered scope) {w : Value} (hw : InReach N scope s w) : w.Made s.fresh := by
  obtain ⟨x, -, v, hv | hv, hreach⟩ := hw
  · exact (h.scope x v hv).of_reaches h.heap hreach
  · exact (h.globals x v hv).of_reaches h.heap hreach

/-- Functions that were made keep their number, further ones are counted from `n` instead of `m`. -/
def renumbering (m n i : Nat) : Nat := if i < m then i else n + (i - m)

def Function.renumber (ρ : Nat → Nat) : Function → Function
  | .member i m => .member (ρ i) m
  | .closure i name variants => .closure (ρ i) name variants
  | f => f

mutual

def Value.renumber (ρ : Nat → Nat) : Value → Value
  | .list items => .list (renumberAll ρ items)
  | .function f => .function (f.renumber ρ)
  | v => v

def Value.renumberAll (ρ : Nat → Nat) : List Value → List Value
  | [] => []
  | v :: vs => v.renumber ρ :: renumberAll ρ vs

end

def Table.renumber (ρ : Nat → Nat) (t : Table) : Table :=
  t.map fun e => (e.1.renumber ρ, e.2.renumber ρ)

mutual

theorem Value.renumber_eq_self {ρ : Nat → Nat} {v : Value}
    (h : ∀ f, v.Holds f → f.renumber ρ = f) : v.renumber ρ = v := by
  cases v with
  | list items => rw [renumber, renumberAll_eq_self fun v hv f hf => h f (.item hv hf)]
  | function f => rw [renumber, h f .self]
  | _ => rfl

theorem Value.renumberAll_eq_self {ρ : Nat → Nat} {vs : List Value}
    (h : ∀ v ∈ vs, ∀ f, v.Holds f → f.renumber ρ = f) : renumberAll ρ vs = vs := by
  cases vs with
  | nil => rfl
  | cons v vs =>
    rw [List.forall_mem_cons] at h
    rw [renumberAll, renumber_eq_self h.1, renumberAll_eq_self h.2]

end

theorem Value.Made.renumber {m : Nat} {v : Value} (h : v.Made m) (n : Nat) :
    v.renumber (renumbering m n) = v := by
  refine renumber_eq_self fun f hf => ?_
  have hm := h f hf
  cases f with
  | member i _ | closure i _ _ =>
    have hi : i < m := hm
    simp only [Function.renumber, renumbering, if_pos hi]
  | _ => rfl

theorem Value.renumber_same (n : Nat) : Value.renumber (renumbering n n) = id := by
  have hid (i : Nat) : renumbering n n i = i := by
    unfold renumbering
    split <;> omega
  funext v
  refine renumber_eq_self fun f _ => ?_
  cases f <;> simp only [Function.renumber, hid]

theorem Table.renumber_same (n : Nat) (t : Table) : t.renumber (renumbering n n) = t := by
  rw [renumber, Value.renumber_same]
  exact List.map_id t

theorem Table.renumber_of_made {m : Nat} {t : Table}
    (h : ∀ e ∈ t, e.1.Made m ∧ e.2.Made m) (n : Nat) : t.renumber (renumbering m n) = t := by
  refine (List.map_congr_left fun e he => ?_).trans (List.map_id t)
  exact Prod.ext ((h e he).1.renumber n) ((h e he).2.renumber n)

/-! The likeness of two runs that agree on the names. -/

def Likeness.on (N : Set String) (table : TableId → Prop) (m n : Nat) : Likeness where
  name x := x ∈ N
  place := Eq
  table := table
  number i j := i = j ∧ i < m ∧ j < n ∨ ∃ d, i = m + d ∧ j = n + d
  probe p := p ≠ .locals
  number_iff := by
    rintro i j i' j' (⟨rfl, hm, hn⟩ | ⟨d, rfl, rfl⟩) (⟨rfl, hm', hn'⟩ | ⟨d', rfl, rfl⟩) <;> omega
  place_eq _ h := h
  name_all hp := absurd rfl hp

section On

variable {N : Set String} {table : TableId → Prop} {m n : Nat}

theorem Likeness.on_self {i : Nat} (h : m = n ∨ i < m ∧ i < n) :
    (Likeness.on N table m n).number i i := by
  rcases Nat.lt_or_ge i m with him | him
  · exact .inl ⟨rfl, him, by omega⟩
  · exact .inr ⟨i - m, by omega, by omega⟩

theorem Likeness.on_number {i j : Nat} (h : (Likeness.on N table m n).number i j) :
    j = renumbering m n i := by
  unfold renumbering
  rcases h with ⟨rfl, hm, -⟩ | ⟨d, rfl, rfl⟩
  · rw [if_pos hm]
  · rw [if_neg (by omega)]
    omega

theorem Function.Like.eq_renumber {f g : Function} (h : f.Like (.on N table m n) g) :
    g = f.renumber (renumbering m n) := by
  cases h with
  | member hij m => rw [Likeness.on_number hij, renumber]
  | closure hij name hv =>
    rw [Likeness.on_number hij, eq_of_forall₂ hv fun _ _ hvariant => hvariant.eq id, renumber]
  | _ => rfl

mutual

theorem Value.Like.eq_renumber {v w : Value} (h : v.Like (.on N table m n) w) :
    w = v.renumber (renumbering m n) := by
  cases h with
  | list h => rw [renumber, Value.Like.all_eq_renumber h]
  | function h => rw [renumber, h.eq_renumber]
  | _ => rfl

theorem Value.Like.all_eq_renumber {vs ws : List Value}
    (h : List.Forall₂ (Value.Like (.on N table m n)) vs ws) :
    ws = renumberAll (renumbering m n) vs := by
  cases h with
  | nil => rfl
  | cons hv hvs => rw [renumberAll, ← Value.Like.eq_renumber hv, ← Value.Like.all_eq_renumber hvs]

end

theorem Table.Like.eq_renumber {t t' : Table} (h : t.Like (.on N table m n) t') :
    t' = t.renumber (renumbering m n) := by
  induction h with
  | nil => rfl
  | cons he _ ih =>
    rw [ih, renumber, renumber, List.map_cons, ← he.1.eq_renumber, ← he.2.eq_renumber]

end On

/-- The same tables, open forms and devices, and the same values for the names. -/
structure Session.AgreesOn (N : Set String) (s t : Session) : Prop where
  globals : ∀ x ∈ N, s.globals.get? x = t.globals.get? x
  heap : s.heap = t.heap
  frames : s.SameFrames t
  devices : s.devices = t.devices

/-- What the runs keep to: the names, the tables in reach and every table still to be made. -/
def Likeness.within (N : Set String) (scope : Bindings) (s t : Session) : Likeness :=
  .on N (fun id => InReach N scope s (.table id) ∨ s.heap.size ≤ id) s.fresh t.fresh

section Start

variable {N : Set String} {a b : Bindings} {form : Form} {s t : Session}
  (hst : s.AgreesOn N t) (hab : ∀ x ∈ N, a.get? x = b.get? x) (hc : Covers N a form s)
  (hn : s.fresh = t.fresh ∨ s.Numbered a ∧ t.Numbered b)

include hst hab

theorem InReach.of_agreesOn {w : Value} (hw : InReach N a s w) : InReach N b t w := by
  obtain ⟨x, hx, v, hv, hreach⟩ := hw
  rw [hab x hx, hst.globals x hx] at hv
  exact ⟨x, hx, v, hv, hst.heap ▸ hreach⟩

include hc hn

theorem Function.like_of_inReach {f : Function} (hf : InReach N a s (.function f)) :
    f.Like (.within N a s t) f := by
  have hmade : s.fresh = t.fresh ∨ f.Made s.fresh ∧ f.Made t.fresh :=
    hn.imp_right fun h => ⟨h.1.made hf f .self, h.2.made (hf.of_agreesOn hst hab) f .self⟩
  refine f.like_self (fun _ => rfl) ?_ ?_ ?_
  · rintro p rfl rfl
    exact hc.locals hf
  · rintro i m rfl
    exact Likeness.on_self hmade
  · rintro i name variants rfl
    exact ⟨Likeness.on_self hmade, hc.bodies i name variants hf⟩

theorem Value.like_of_inReach {v : Value} (hv : InReach N a s v) : v.Like (.within N a s t) v :=
  v.like_of (P := InReach N a s) (fun hl w hw => hl.trans (.item hw (.self w))) Or.inl
    (Function.like_of_inReach hst hab hc hn) hv

theorem Session.AgreesOn.like : s.Like (.within N a s t) t where
  globals := by
    refine ⟨fun {x} hx => ?_, fun hp => absurd rfl hp⟩
    rw [← hst.globals x hx]
    cases hv : s.globals.get? x with
    | none => exact .none
    | some v =>
      exact .some (Value.like_of_inReach hst hab hc hn ⟨x, hx, v, .inr hv, .self v⟩)
  heap := by
    rw [← hst.heap]
    exact Heap.like_of (P := InReach N a s) (Value.like_of_inReach hst hab hc hn)
      (fun hid _ he => hid.entry he) id .inr
  fresh d := .inr ⟨d, rfl, rfl⟩
  depth := hst.frames.depth.symm
  calls := by
    rw [hst.frames.calls]
    exact List.forall₂_same.2 fun c _ => c.like_self fun _ => rfl
  devices := hst.devices

theorem Bindings.like_of_agreesOn : a.Like (.within N a s t) b := by
  refine ⟨fun {x} hx => ?_, fun hp => absurd rfl hp⟩
  rw [← hab x hx]
  cases hv : a.get? x with
  | none => exact .none
  | some v => exact .some (Value.like_of_inReach hst hab hc hn ⟨x, hx, v, .inl hv, .self v⟩)

end Start

/-- The value or the failure. -/
def Outcome.result {α : Type} : Outcome α → Except Failure α
  | .ok a _ => .ok a
  | .error e _ => .error e

/-- The second run is the first with its functions renumbered, but for names that are of no concern:
the same value or failure, the same tables, the same globals and the same output. -/
structure SameRun (N : Set String) (ρ : Nat → Nat) (s t : Session) (r r' : Outcome Value) :
    Prop where
  result : r'.result = r.result.map (Value.renumber ρ)
  size : r'.session.heap.size = r.session.heap.size
  heap : ∀ id, r'.session.heap.get id = (r.session.heap.get id).renumber ρ
  globals : ∀ x ∈ N,
    r'.session.globals.get? x = (r.session.globals.get? x).map (Value.renumber ρ)
  untouched : ∀ x ∉ N, r.session.globals.get? x = s.globals.get? x ∧
    r'.session.globals.get? x = t.globals.get? x
  writes : ∃ output diagnostics,
    s.Writes r.session output diagnostics ∧ t.Writes r'.session output diagnostics

theorem SameRun.of_outcomes {access : Access} {N : Set String} {a : Bindings} {s t : Session}
    (hst : s.AgreesOn N t) (hn : s.fresh = t.fresh ∨ s.Numbered a) {r r' : Outcome Value}
    (h : (Accord.sparing access (.within N a s t) s t).Outcomes
      (Value.Like (.within N a s t)) r r') :
    SameRun N (renumbering s.fresh t.fresh) s t r r' := by
  obtain ⟨hlike, hleft, hright, hwrites⟩ := h.sessions
  refine ⟨?_, hlike.heap.size.symm, fun id => ?_, fun x hx => ?_, fun x hx => ?_, hwrites⟩
  · cases h with
    | ok hv _ => exact congrArg Except.ok hv.eq_renumber
    | error he _ => exact congrArg Except.error (he.eq id).symm
  · by_cases hid : (Likeness.within N a s t).table id
    · exact (hlike.heap.get hid).eq_renumber
    · rw [hleft.heap hid, hright.heap hid, ← hst.heap]
      rcases hn with hn | hn
      · rw [hn, Table.renumber_same]
      · exact (Table.renumber_of_made (hn.heap id) _).symm
  · have hget := hlike.globals.get? hx
    generalize r.session.globals.get? x = v, r'.session.globals.get? x = w at hget
    cases hget with
    | none => rfl
    | some hv => exact congrArg some hv.eq_renumber
  · exact ⟨hleft.globals hx, hright.globals hx⟩

namespace Config

/-- Runs that agree on every name they could look up are the same, whatever else is bound; and where
equally many functions have been made before, nothing is renumbered. -/
theorem unmentioned_idle (config : Config) {N : Set String} {a b : Bindings} {form : Form}
    {s t : Session} (hst : s.AgreesOn N t) (hab : ∀ x ∈ N, a.get? x = b.get? x)
    (hc : Covers N a form s) (hn : s.fresh = t.fresh ∨ s.Numbered a ∧ t.Numbered b) :
    let r := config.evaluate a form s
    let r' := config.evaluate b form t
    SameRun N (renumbering s.fresh t.fresh) s t r r' ∧
      (s.fresh = t.fresh → Outcome.result r' = Outcome.result r ∧
        (∀ id, (Outcome.session r').heap.get id = (Outcome.session r).heap.get id) ∧
        ∀ x ∈ N, (Outcome.session r').globals.get? x = (Outcome.session r).globals.get? x) := by
  intro r r'
  have hforms : form.Like (.within N a s t) form := form.like_self (fun _ => rfl) hc.form
  have hsame : SameRun N (renumbering s.fresh t.fresh) s t r r' :=
    .of_outcomes hst (hn.imp_right And.left)
      (config.evaluate_like (Bindings.like_of_agreesOn hst hab hc hn) hforms (hst.like hab hc hn))
  refine ⟨hsame, fun hfresh => ?_⟩
  refine ⟨?_, fun i => ?_, fun x hx => ?_⟩
  · rw [hsame.result, hfresh, Value.renumber_same]
    cases Outcome.result r <;> rfl
  · rw [hsame.heap, hfresh, Table.renumber_same]
  · rw [hsame.globals x hx, hfresh, Value.renumber_same, Option.map_id_apply]

/-- A function that makes functions, run where another one has been made before and where not. -/
theorem unmentioned_idle_maker :
    let maker : Value := .function
      (.closure 0 (some "f") [⟨["x"], [.call [.symbol "fn", .vector [], .symbol "x"] ⟨"a", 1, 1⟩]⟩])
    let other : Value := .function (.closure 1 (some "z") [⟨[], [.symbol "w"]⟩])
    let bound : List (String × Value) := [("fn", .function (.special .lambda)), ("f", maker)]
    let s : Session := { Session.initial with globals := ⟨bound⟩, fresh := 1 }
    let t : Session := { Session.initial with globals := ⟨("z", other) :: bound⟩, fresh := 2 }
    let form : Form := .call [.symbol "f", .atom .nil] ⟨"a", 2, 1⟩
    SameRun {"f", "fn", "x"} (renumbering 1 2) s t (Config.default.evaluate .empty form s)
      (Config.default.evaluate ⟨[("z", .nil)]⟩ form t) := by
  intro maker other bound s t form
  have hst : s.AgreesOn {"f", "fn", "x"} t := by
    refine ⟨?_, rfl, ⟨rfl, rfl⟩, rfl⟩
    rintro x (rfl | rfl | rfl) <;> rfl
  have hab : ∀ x ∈ ({"f", "fn", "x"} : Set String),
      Bindings.empty.get? x = Bindings.get? ⟨[("z", .nil)]⟩ x := by
    rintro x (rfl | rfl | rfl) <;> rfl
  have hreach {f : Function} (hf : InReach {"f", "fn", "x"} .empty s (.function f)) :
      Value.function f = maker ∨ f = .special .lambda := by
    obtain ⟨x, rfl | rfl | rfl, v, hv | hv, hf⟩ := hf <;> cases hv <;> unfold maker at * <;>
      cases hf
    · exact .inl rfl
    · exact .inr rfl
  have hc : Covers {"f", "fn", "x"} .empty form s := by
    refine ⟨fun x hx => ?_, fun id name variants hf => ?_, fun hf => ?_⟩
    · have hnames : ∀ x ∈ form.names, x ∈ ({"f", "fn", "x"} : Set String) := by
        simp [form, Form.names, Form.namesAll]
      exact hnames x (Form.mem_names_of_mentions hx)
    · rcases hreach hf with h | h
      · unfold maker at h
        cases h
        simp only [List.forall_mem_singleton]
        intro x hx
        rcases List.mem_cons.1 (Form.mem_names_of_mentions hx) with rfl | hx
        · simp
        · simp_all [Form.names, Form.namesAll]
      · cases h
    · rcases hreach hf with h | h
      · unfold maker at h
        cases h
      · cases h
  -- Both sessions are what definitions lead to where nothing has been made yet.
  let scope : Bindings := ⟨[("defn", .function (.special .defineFunction))]⟩
  let defn (x : String) (params : List Form) (body : Form) : Form :=
    .call [.symbol "defn", .symbol x, .vector params, body] ⟨"a", 1, 1⟩
  let lambda := defn "f" [.symbol "x"] (.call [.symbol "fn", .vector [], .symbol "x"] ⟨"a", 1, 1⟩)
  have hbare {globals : List (String × Value)} (h : Bound.Made 0 globals) :
      Session.Numbered { Session.initial with globals := ⟨globals⟩ } scope := by
    have hscope : scope.Made 0 := Bindings.made_of_entries (by simp [Bound.Made, Function.Made])
    refine ⟨?_, Bindings.made_of_entries h, hscope⟩
    rintro id e ⟨⟩
  have hs : s.Numbered scope := by
    have h : Bound.Made 0 [("fn", .function (.special .lambda)), ("f", .nil)] := by
      simp [Bound.Made, Function.Made]
    exact (Config.default.evaluate_numbered lambda (hbare h)).2
  have ht : t.Numbered scope := by
    have h : Bound.Made 0 [("z", .nil), ("fn", .function (.special .lambda)), ("f", .nil)] := by
      simp [Bound.Made, Function.Made]
    have hf := (Config.default.evaluate_numbered lambda (hbare h)).2
    exact (Config.default.evaluate_numbered (defn "z" [] (.symbol "w")) hf).2
  have htz : t.Numbered ⟨[("z", .nil)]⟩ :=
    ⟨ht.heap, ht.globals, Bindings.made_of_entries (by simp [Bound.Made])⟩
  exact (unmentioned_idle Config.default hst hab hc (.inr ⟨hs.ofSession, htz⟩)).1

end Config

end Lisplet
