import Lisplet.Proofs.Arguments
import Lisplet.Proofs.Clauses
import Lisplet.Proofs.Gathering
import Lisplet.Proofs.Limits
import Mathlib

/-!
The definitions of the prelude. Its text reads as one definition after another, each at its place,
and evaluating them binds each name to a function with the variants written down here. So the
session that programs start in is known, whatever the limit, if it is reached at all.
-/

namespace Lisplet

namespace Prelude

/-- A definition of a function: the line it starts on, the name, and the variants. -/
structure Definition where
  line : Nat
  name : String
  variants : List Variant

def call (line column : Nat) (items : List Form) : Form := .call items ⟨file, line, column⟩

namespace Definition

/-- A variant as it is written. -/
def clause (v : Variant) : List Form := .vector (v.params.map .symbol) :: v.body

/-- Variants in brackets, each on a line of its own. -/
def clauses (line : Nat) : List Variant → List Form
  | [] => []
  | v :: vs => call line 3 (clause v) :: clauses (line + 1) vs

/-- What follows the name: one variant on its own, or several. -/
def operands (d : Definition) : List Form :=
  match d.variants with
  | [v] => clause v
  | vs => clauses (d.line + 1) vs

def form (d : Definition) : Form := call d.line 1 (.symbol "defn" :: .symbol d.name :: d.operands)

/-- The function defined, under the number it gets. -/
def function (d : Definition) (id : Nat) : Value :=
  .function (.closure id (some d.name) d.variants)

end Definition

-- In the bodies below, a text stands for the symbol of that name.
local instance : Coe String Form := ⟨.symbol⟩

def countBody : Form :=
  call 43 3 ["if", call 43 7 ["=", call 43 10 ["type", "xs"], .atom (.text "Hash")],
    call 44 5 [".-size", "xs"], call 45 5 [".-length", "xs"]]

def mapBody : Form :=
  call 50 3 ["if", call 50 7 ["empty?", "xs"], .vector [],
    call 52 5 ["cons", call 52 11 ["f", call 52 14 ["head", "xs"]],
      call 52 25 ["map", "f", call 52 32 ["tail", "xs"]]]]

def filterBody : Form :=
  call 55 3 ["if", call 55 7 ["empty?", "xs"], .vector [],
    call 57 5 ["if", call 57 9 ["pred", call 57 15 ["head", "xs"]],
      call 58 7 ["cons", call 58 13 ["head", "xs"],
        call 58 23 ["filter", "pred", call 58 36 ["tail", "xs"]]],
      call 59 7 ["filter", "pred", call 59 20 ["tail", "xs"]]]]

def reduceBody : Form :=
  call 64 5 ["if", call 64 9 ["empty?", "xs"], "acc",
    call 66 7 ["reduce", "f", call 66 17 ["f", "acc", call 66 24 ["head", "xs"]],
      call 66 35 ["tail", "xs"]]]

/-- What is done with each item of a list that is reversed. -/
def push : Variant := ⟨["acc", "x"], [call 75 40 ["cons", "x", "acc"]]⟩

def definitions : List Definition :=
  [ ⟨10, "-",
      [ ⟨["x"], [call 11 8 ["*", .atom (.number (-1)), "x"]]⟩,
        ⟨["x", "y"], [call 12 10 ["+", "x", call 12 15 ["*", .atom (.number (-1)), "y"]]]⟩,
        ⟨["x", "y", "&", "more"],
          [call 13 17 ["apply", "-", call 13 26 ["-", "x", "y"], "more"]]⟩ ]⟩,
    ⟨15, "not", [⟨["x"], [call 15 15 ["if", "x", .atom (.bool false), .atom (.bool true)]]⟩]⟩,
    ⟨17, "!=", [⟨["a", "b"], [call 17 16 ["not", call 17 21 ["=", "a", "b"]]]⟩]⟩,
    ⟨19, ">", [⟨["a", "b"], [call 19 15 ["<", "b", "a"]]⟩]⟩,
    ⟨21, "<=",
      [⟨["a", "b"], [call 21 16 ["or", call 21 20 ["<", "a", "b"], call 21 28 ["=", "a", "b"]]]⟩]⟩,
    ⟨23, ">=",
      [⟨["a", "b"], [call 23 16 ["or", call 23 20 ["<", "b", "a"], call 23 28 ["=", "a", "b"]]]⟩]⟩,
    ⟨25, "inc", [⟨["x"], [call 25 15 ["+", "x", .atom (.number 1)]]⟩]⟩,
    ⟨27, "dec", [⟨["x"], [call 27 15 ["-", "x", .atom (.number 1)]]⟩]⟩,
    ⟨30, "mod",
      [⟨["a", "b"],
        [call 30 17 ["_cmod", call 30 24 ["+", call 30 27 ["_cmod", "a", "b"], "b"], "b"]]⟩]⟩,
    ⟨36, "identity", [⟨["x"], ["x"]⟩]⟩,
    ⟨38, "list", [⟨["&", "items"], ["items"]⟩]⟩,
    ⟨40, "nth", [⟨["xs", "i"], [call 40 18 ["_subscript", "xs", "i"]]⟩]⟩,
    ⟨42, "count", [⟨["xs"], [countBody]⟩]⟩,
    ⟨47, "empty?", [⟨["xs"], [call 47 19 ["=", call 47 22 ["count", "xs"], .atom (.number 0)]]⟩]⟩,
    ⟨49, "map", [⟨["f", "xs"], [mapBody]⟩]⟩,
    ⟨54, "filter", [⟨["pred", "xs"], [filterBody]⟩]⟩,
    ⟨61, "reduce",
      [ ⟨["f", "xs"],
          [call 62 11 ["reduce", "f", call 62 21 ["head", "xs"], call 62 31 ["tail", "xs"]]]⟩,
        ⟨["f", "acc", "xs"], [reduceBody]⟩ ]⟩,
    ⟨68, "range",
      [ ⟨["end"], [call 69 10 ["range", .atom (.number 0), "end"]]⟩,
        ⟨["start", "end"],
          [call 71 5 ["if", call 71 9 ["<", "start", "end"],
            call 72 7 ["cons", "start",
              call 72 19 ["range", call 72 26 ["+", "start", .atom (.number 1)], "end"]],
            .vector []]]⟩ ]⟩,
    ⟨75, "reverse",
      [⟨["xs"],
        [call 75 20 ["reduce", call 75 28 ("fn" :: Definition.clause push), .vector [], "xs"]]⟩]⟩,
    ⟨77, "concat",
      [ ⟨[], [.vector []]⟩,
        ⟨["xs"], ["xs"]⟩,
        ⟨["xs", "ys"], [call 80 12 [".concat", "xs", "ys"]]⟩,
        ⟨["xs", "ys", "&", "more"],
          [call 81 19 ["apply", "concat", call 81 33 ["concat", "xs", "ys"], "more"]]⟩ ]⟩ ]

end Prelude

/-! Reading. -/

/-- Whole lines that read, and what reads behind them, read as one text. -/
theorem Reading.forms_append {file : String} {p : Position} {cs ds : List Char}
    {first second : List Form} (hl : Lexeme.WholeLines cs)
    (hfirst : forms file (.form []) (.ofText p cs) = (first, none))
    (hsecond : forms file (.form []) (.ofText (p.past cs) ds) = (second, none)) :
    forms file (.form []) (.ofText p (cs ++ ds)) = (first ++ second, none) := by
  obtain ⟨q, hq, hrest⟩ := forms_continued_of_none (congrArg Prod.snd hfirst)
  obtain rfl := Tokens.ofText_final? hq
  obtain ⟨mended, htokens, -⟩ := Tokens.ofText_append hl p ds
  obtain ⟨hsnd, hfst⟩ := hrest (.ofText · ds) mended
  rw [hsecond] at hsnd hfst
  rw [htokens]
  refine Prod.ext ((hfst rfl).trans ?_) hsnd
  rw [hfirst]

namespace Prelude

/-- The characters of lines, each ended by a newline. -/
def charsOf (lines : List String) : List Char := lines.flatMap fun line => line.toList ++ ['\n']

theorem charsOf_cons (cs : List Char) (lines : List String) :
    charsOf (String.ofList cs :: lines) = cs ++ '\n' :: charsOf lines := by
  simp [charsOf]

theorem charsOf_append (lines more : List String) :
    charsOf (lines ++ more) = charsOf lines ++ charsOf more := List.flatMap_append

theorem wholeLines_charsOf (lines : List String) : Lexeme.WholeLines (charsOf lines) := by
  induction lines using List.reverseRecOn with
  | nil => exact .inl rfl
  | append_singleton lines line _ =>
    refine .inr ?_
    simp [Lexeme.EndsLine, charsOf]

/-- Lines read as some forms up to the line of the first definition, and from there on as the
definitions, each of which goes on until the next. -/
def Reads (line : Nat) (lines : List String) (forms : List Form) : List Definition → Prop
  | [] => Reading.forms file (.form []) (.ofText ⟨line, 1⟩ (charsOf lines)) = (forms, none)
  | d :: ds =>
    let before := charsOf (lines.take (d.line - line))
    Reading.forms file (.form []) (.ofText ⟨line, 1⟩ before) = (forms, none) ∧
    Position.past ⟨line, 1⟩ before = ⟨d.line, 1⟩ ∧
    Reads d.line (lines.drop (d.line - line)) [d.form] ds

theorem Reads.forms_eq {line : Nat} {lines : List String} {forms : List Form}
    {ds : List Definition} (h : Reads line lines forms ds) :
    Reading.forms file (.form []) (.ofText ⟨line, 1⟩ (charsOf lines)) =
      (forms ++ ds.map Definition.form, none) := by
  induction ds generalizing line lines forms with
  | nil => rwa [List.map_nil, List.append_nil]
  | cons d ds ih =>
    obtain ⟨hread, hpast, hrest⟩ := h
    have happend := charsOf_append (lines.take (d.line - line)) (lines.drop (d.line - line))
    rw [List.take_append_drop] at happend
    rw [happend]
    refine Reading.forms_append (wholeLines_charsOf _) hread ?_
    rw [hpast]
    exact ih hrest

set_option maxRecDepth 2000 in
theorem reads : Reads 1 lines [] definitions := by
  unfold lines definitions
  -- after its lines are spelled out, each piece is read by computation
  repeat' apply And.intro
  all_goals
    simp only [Reads, Nat.reduceSub, List.take_succ_cons, List.take_zero, List.drop_succ_cons,
      List.drop_zero]
    repeat rw [charsOf_cons]
    rfl

theorem toList_intercalate_newline (line : String) (lines : List String) :
    ("\n".intercalate (line :: lines) ++ "\n").toList = charsOf (line :: lines) := by
  induction lines generalizing line with
  | nil => simp [charsOf]
  | cons next lines ih =>
    rw [String.intercalate_cons_cons, String.append_assoc, String.toList_append, ih next]
    simp [charsOf]

theorem parse_source : parse file source = .ok (definitions.map Definition.form) := by
  have hsource : source.toList = charsOf lines := toList_intercalate_newline _ _
  have hforms := reads.forms_eq
  rw [parse_eq_ok_iff, readForms, Tokens.ofString_eq, hsource]
  exact hforms

end Prelude

/-! Evaluation. -/

namespace Prelude

theorem written_clauses (line : Nat) (vs : List Variant) :
    List.Forall₂ Variant.Written (Definition.clauses line vs) vs := by
  induction vs generalizing line with
  | nil => exact .nil
  | cons v vs ih => exact .cons (.vector v.params v.body _) (ih (line + 1))

theorem Definition.written_operands {d : Definition} (h : d.variants ≠ []) :
    Variant.AllWritten d.operands d.variants := by
  obtain ⟨line, name, variants⟩ := d
  match variants, h with
  | [v], _ => exact .inline v.params v.body
  | v :: w :: vs, _ => exact .several (written_clauses (line + 1) (v :: w :: vs))

/-- The functions of definitions, numbered from `id` on. -/
def functions (id : Nat) : List Definition → List (String × Value)
  | [] => []
  | d :: ds => (d.name, d.function id) :: functions (id + 1) ds

/-- A definition makes one function and binds its name to it. -/
theorem evaluate_definition {config : Config} {d : Definition} {s : Session}
    (hdefn : s.globals.get? "defn" = some (.function (.special .defineFunction)))
    (hroom : s.depth + 2 ≤ config.maxDepth) (hd : d.variants ≠ []) :
    config.evaluate .empty d.form s =
      .ok .nil { s with
        fresh := s.fresh + 1, globals := s.globals.insert d.name (d.function s.fresh) } := by
  have hin : (s.enter d.form).depth = s.depth + 1 := rfl
  have hhead : config.evaluate .empty (.symbol "defn") (s.enter d.form) =
      .ok (.function (.special .defineFunction)) (s.enter d.form) := by
    rw [config.evaluate_of_lt .empty _ (by omega)]
    change EStateM.Result.ok ((s.globals.get? "defn").getD .nil) _ = _
    rw [hdefn]
    rfl
  have hbody : Eval.step config.access config.evaluate .empty d.form (s.enter d.form) =
      Eval.evalDefineFunction (.symbol d.name :: d.operands) (s.enter d.form) := by
    change (config.evaluate .empty (.symbol "defn") >>= _) (s.enter d.form) = _
    rw [Outcome.bind_apply, hhead]
    rfl
  rw [config.evaluate_of_lt .empty _ (by omega), Eval.framed, hbody, Eval.evalDefineFunction,
    Eval.functionVariants_of_written _ (Definition.written_operands hd)]
  rfl

/-- Definitions one after another, none of which hides how to define. -/
theorem evalBody_definitions {config : Config} {ds : List Definition} {s : Session}
    (hdefn : s.globals.get? "defn" = some (.function (.special .defineFunction)))
    (hroom : s.depth + 2 ≤ config.maxDepth)
    (hds : ∀ d ∈ ds, d.variants ≠ [] ∧ d.name ≠ "defn") :
    Eval.evalBody config.evaluate .empty .nil (ds.map Definition.form) s =
      .ok .nil { s with
        fresh := s.fresh + ds.length, globals := s.globals.layer (functions s.fresh ds) } := by
  induction ds generalizing s with
  | nil => rfl
  | cons d ds ih =>
    obtain ⟨hd, hname⟩ := hds d (by simp)
    have hrest := ih
      (s := { s with
        fresh := s.fresh + 1, globals := s.globals.insert d.name (d.function s.fresh) })
      (by rw [Bindings.get?_insert, if_neg (Ne.symm hname), hdefn]) hroom
      fun d' hd' => hds d' (by simp [hd'])
    rw [Nat.add_assoc, Nat.add_comm 1] at hrest
    rw [List.map_cons, Eval.evalBody, Outcome.bind_apply, evaluate_definition hdefn hroom hd]
    exact hrest

/-- The session that programs start in. -/
def session : Session :=
  { Session.initial with
    globals := (Bindings.empty.layer builtins).layer (functions 0 definitions)
    fresh := definitions.length }

end Prelude

/-- The session that the prelude is loaded in. -/
def Session.bare : Session := { Session.initial with globals := Bindings.empty.layer builtins }

namespace Config

variable {config : Config}

theorem start_eq_ok_iff (hp : config.prelude = true) {s : Session} :
    config.start = .ok s ↔ ∃ v, config.loadPrelude .bare = .ok v s := by
  unfold start Session.bare
  dsimp only
  rw [if_pos hp]
  split <;> simp_all

theorem loadPrelude_bare (hroom : 2 ≤ config.maxDepth) :
    config.loadPrelude .bare = .ok .nil Prelude.session := by
  have hds : ∀ d ∈ Prelude.definitions, d.variants ≠ [] ∧ d.name ≠ "defn" := by
    simp [Prelude.definitions]
  rw [loadPrelude, runSource, Prelude.parse_source]
  refine Prelude.evalBody_definitions rfl ?_ hds
  change 0 + 2 ≤ config.maxDepth
  omega

theorem start_eq (hp : config.prelude = true) (hroom : 2 ≤ config.maxDepth) :
    config.start = .ok Prelude.session := (start_eq_ok_iff hp).2 ⟨_, loadPrelude_bare hroom⟩

/-- Whatever the limit, the session that is started with the prelude is the same. -/
theorem eq_session_of_start (hp : config.prelude = true) {s : Session}
    (h : config.start = .ok s) : s = Prelude.session := by
  obtain ⟨v, hload⟩ := (start_eq_ok_iff hp).1 h
  have hmore := @loadPrelude_bare (config.withLimit (max config.maxDepth 2)) (le_max_right _ _)
  have hbelow := config.runSource_below (le_max_left config.maxDepth 2) Prelude.file Prelude.source
    .bare
  rw [loadPrelude] at hload hmore
  rw [hload, hmore] at hbelow
  cases hbelow.eq rfl
  rfl

end Config

end Lisplet
