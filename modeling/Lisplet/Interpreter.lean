import Lisplet.Eval.Evaluate
import Lisplet.Prelude

/-!
Running programs: the session a program starts in, and the evaluation of a source text in a session.
-/

namespace Lisplet

structure Config where
  /-- How many forms may be open at once. -/
  maxDepth : Nat
  prelude : Bool
  access : Access
  deriving Repr, DecidableEq

def Config.default : Config := ⟨10000, true, .all⟩

/-- The globals that are there before the prelude. -/
def builtins : List (String × Value) :=
  SpecialForm.all.map (fun form => (form.name, .function (.special form))) ++
    Primitive.all.map (fun op => (op.name, .function (.primitive op))) ++
    [(Function.applyName, .function .apply)]

def probes : List (String × Value) :=
  Probe.all.map fun p => (p.name, .function (.probe p))

namespace Config

/-- Evaluates a form in a scope. The forms that are open in the session already count. -/
def evaluate (config : Config) : Evaluator := fun scope form s =>
  Lisplet.evaluate config.access (config.maxDepth - s.depth) scope form s

/-- Evaluates forms in order, each in the empty scope; the value is that of the last, or nil. -/
def runForms (config : Config) (forms : List Form) : Eval Value :=
  Eval.evalBody config.evaluate .empty .nil forms

/-- Evaluates a source text. Nothing is evaluated if any of it cannot be read. -/
def runSource (config : Config) (file source : String) : Eval Value :=
  match parse file source with
  | .ok forms => config.runForms forms
  | .error e => Eval.fail (.unreadable e)

def loadPrelude (config : Config) : Eval Value := config.runSource Prelude.file Prelude.source

/-- The session that programs start in. -/
def start (config : Config) : Except Failure Session :=
  let s := { Session.initial with globals := Bindings.empty.layer builtins }
  if config.prelude then
    match config.loadPrelude s with
    | .ok _ s => .ok s
    | .error e _ => .error e
  else .ok s

end Config

end Lisplet
