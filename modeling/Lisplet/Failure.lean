import Lisplet.Json.Reader
import Lisplet.Source.Forms
import Lisplet.Value.Basic

/-!
What can go wrong. A failure is a cause and, once it has come up through an evaluation, the calls
that were open where it arose. Every cause has one wording, in `Cause.message`.
-/

namespace Lisplet

/-- How many arguments a function takes. -/
inductive Arity
  | exactly (n : Nat)
  | atLeast (n : Nat)
  | between (low high : Nat)
  deriving Repr, DecidableEq

namespace Arity

def text : Arity → String
  | exactly n => n.repr
  | atLeast n => "at least " ++ n.repr
  | between low high => low.repr ++ " to " ++ high.repr

end Arity

/-- Why a value does not fit an operation. -/
inductive Mismatch
  | expected (what : String) (got : Kind)
  | incomparable (left right : Kind)
  | subscriptOfNil (key : String)
  | missingObject
  | specialApplied
  | bindingsNotVector
  deriving Repr, DecidableEq

def Mismatch.message : Mismatch → String
  | expected what got => "expected " ++ what ++ ", got " ++ got.name
  | incomparable left right => "cannot compare " ++ left.name ++ " with " ++ right.name
  | subscriptOfNil key => "cannot read " ++ key ++ " of nil"
  | missingObject => "missing object argument"
  | specialApplied => "special forms cannot be applied to evaluated arguments"
  | bindingsNotVector => "First argument to `let` must be a Vector."

/-- What is wrong with the operands of a special form. -/
inductive Misshape
  | noNameAndValue
  | noName
  | notOneName
  | notOneOperand
  | noSubject
  | noVariant
  | noBindings
  | oddBindings
  | notSymbol (form : Form)
  | variantNotList (form : Form)
  | variantWithoutParams (form : Form)
  | paramNotSymbol (form : Form)
  | bindingNotSymbol (form : Form)

def Misshape.message : Misshape → String
  | noNameAndValue => "requires a name and a value"
  | noName => "requires a name"
  | notOneName => "requires exactly one name"
  | notOneOperand => "requires exactly one argument"
  | noSubject => "requires an expression to match"
  | noVariant => "requires at least one variant"
  | noBindings => "requires a binding vector"
  | oddBindings => "binding vector requires an even number of forms"
  | notSymbol form => "expected an identifier, found " ++ form.kind ++ " " ++ form.render
  | variantNotList form => "each variant must be a list, found " ++ form.kind ++ " " ++ form.render
  | variantWithoutParams form => "variant " ++ form.render ++ " must start with a parameter vector"
  | paramNotSymbol form =>
    "parameters must be identifiers, found " ++ form.kind ++ " " ++ form.render
  | bindingNotSymbol form => "binding names must be identifiers, found " ++ form.render

/-- What is wrong with the use of a member of the host. -/
inductive HostFault
  | fieldOfNil
  | noField (kind : Kind) (name : String)
  | methodOfNil
  | noMethod (kind : Kind) (name : String)
  | missingArgument (index : Nat)
  | expected (kind got : Kind)
  | negative
  | tooManyDigits
  | unknownGlobal
  | denied (scope : String)
  | cyclic
  | badJson (fault : Json.Fault) (text : String)
  deriving Repr, DecidableEq

def HostFault.message : HostFault → String
  | fieldOfNil => "cannot read field of nil"
  | noField kind name => kind.name ++ " has no field `" ++ name ++ "`"
  | methodOfNil => "cannot call method on nil"
  | noMethod kind name => kind.name ++ " has no method `" ++ name ++ "`"
  | missingArgument index => "missing argument " ++ (index + 1).repr
  | expected kind got => "expected " ++ kind.name ++ ", got " ++ got.name
  | negative => "expected a non-negative number"
  | tooManyDigits => "digits must be between 0 and 100"
  | unknownGlobal => "unknown host global"
  | denied scope => "namespace `" ++ scope ++ "` is not allowed"
  | cyclic => "cannot convert a hash that contains itself"
  | badJson fault text => fault.message text.toList

/-- Why a file gives no source text. -/
inductive FileFault
  | missing
  | directory
  | notDirectory
  | notText
  | other (message : String)
  deriving Repr, DecidableEq

def FileFault.message : FileFault → String
  | missing => "No such file or directory (os error 2)"
  | directory => "Is a directory (os error 21)"
  | notDirectory => "Not a directory (os error 20)"
  | notText => "stream did not contain valid UTF-8"
  | other message => message

inductive Cause
  | unreadable (e : ReadError)
  /-- The marker of the rest parameter stands last or twice. -/
  | restMarker
  | noSignature (name : Option String) (args : String)
  | notCallable (text : String)
  | mismatch (context : String) (m : Mismatch)
  | misshapen (form : SpecialForm) (m : Misshape)
  | arity (name : String) (expected : Arity) (got : Nat)
  | host (path : String) (fault : HostFault)
  | overflow (depth : Nat)
  | died (message : String)
  | file (path : String) (fault : FileFault)
  | setting (key value : String)

namespace Cause

def message : Cause → String
  | unreadable e => e.message
  | restMarker => "Invalid use of &-operator."
  | noSignature name args =>
    let callee := match name with
      | some name => "`" ++ name ++ "`"
      | none => "anonymous function"
    "No matching call signature for " ++ callee ++ " with arguments (" ++ args ++ ")."
  | notCallable text => text ++ " is not a function."
  | mismatch context m => context ++ ": " ++ m.message
  | misshapen form m => "Invalid '" ++ form.name ++ "' syntax: " ++ m.message
  | arity name expected got =>
    "Wrong number of arguments to '" ++ name ++ "': expected " ++ expected.text ++
      ", got " ++ got.repr
  | host path fault => path ++ ": " ++ fault.message
  | overflow depth => "Maximum call stack size exceeded (depth " ++ depth.repr ++ ")"
  | died message => message
  | file path fault => path ++ ": " ++ fault.message
  | setting key value => "invalid value `" ++ value ++ "` for " ++ key

/-- Fatal causes end the whole program, not only the form at hand, and are never given a trace. -/
def isFatal : Cause → Bool
  | overflow _ | died _ => true
  | _ => false

/-- The class of error that reports begin with. -/
def category : Cause → String
  | unreadable _ | restMarker | misshapen .. => "SyntaxError"
  | noSignature .. | notCallable _ | mismatch .. | arity .. => "TypeError"
  | host .. => "HostError"
  | overflow _ => "RangeError"
  | died _ => "Fatal"
  | file .. => "IOError"
  | setting .. => "ConfigError"

end Cause

/-- A call that is being evaluated. -/
structure OpenCall where
  items : List Form
  location : Location

/-- The line of a call in a trace; the empty call has none. -/
def OpenCall.line? (c : OpenCall) : Option String :=
  c.items.head?.map fun head => head.render ++ " (" ++ c.location.text ++ ")"

/-- The lines of open calls, innermost first. -/
def traceLines (calls : List OpenCall) : List String := calls.filterMap OpenCall.line?

structure Failure where
  cause : Cause
  trace : Option (List OpenCall)

namespace Failure

def ofCause (cause : Cause) : Failure := ⟨cause, none⟩

/-- Gives the failure a trace, unless it has one already or is fatal. -/
def annotate (e : Failure) (calls : List OpenCall) : Failure :=
  if e.trace.isSome || e.cause.isFatal then e else { e with trace := some calls }

def lines (e : Failure) : List String := traceLines (e.trace.getD [])

/-- The failure as it is shown to the user, one line for each open call. -/
def report (e : Failure) : String :=
  e.lines.foldl (fun text line => text ++ "\n    at " ++ line)
    (e.cause.category ++ ": " ++ e.cause.message)

end Failure

end Lisplet
