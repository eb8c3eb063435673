import Lisplet.Source.Form

/-!
Functions: the built-in forms and primitives, members of host objects and namespaces, and the
functions a program makes. A function made by a program holds its parameters and body and nothing of
the scope it was made in.
-/

namespace Lisplet

/-- The forms that get their operands unevaluated. -/
inductive SpecialForm
  | eval
  | define
  | lambda
  | defineFunction
  | isDefined
  | cond
  | case
  | binding
  | and
  | or
  deriving Repr, DecidableEq

namespace SpecialForm

def all : List SpecialForm :=
  [eval, define, lambda, defineFunction, isDefined, cond, case, binding, and, or]

def name : SpecialForm → String
  | eval => "eval"
  | define => "def"
  | lambda => "fn"
  | defineFunction => "defn"
  | isDefined => "defined?"
  | cond => "if"
  | case => "case"
  | binding => "let"
  | and => "and"
  | or => "or"

end SpecialForm

inductive Primitive
  | add
  | mul
  | div
  | rem
  | floor
  | less
  | equal
  | head
  | tail
  | cons
  | table
  | subscript
  | kind
  | print
  | die
  deriving Repr, DecidableEq

namespace Primitive

def all : List Primitive :=
  [add, mul, div, rem, floor, less, equal, head, tail, cons, table, subscript, kind, print, die]

def name : Primitive → String
  | add => "+"
  | mul => "*"
  | div => "/"
  | rem => "_cmod"
  | floor => "floor"
  | less => "<"
  | equal => "="
  | head => "head"
  | tail => "tail"
  | cons => "cons"
  | table => "hash"
  | subscript => "_subscript"
  | kind => "type"
  | print => "print"
  | die => "die"

end Primitive

/-- Functions that look at the evaluation they are called in. -/
inductive Probe
  | depth
  | trace
  | locals
  deriving Repr, DecidableEq

namespace Probe

def all : List Probe := [depth, trace, locals]

def name : Probe → String
  | depth => "%depth"
  | trace => "%trace"
  | locals => "%locals"

end Probe

/-- What a symbol with a dot or a slash in it reaches: a field or method of an object, or a global
of the host. -/
inductive Member
  | field (name : String)
  | method (name : String)
  | global (path : List String)
  deriving Repr, DecidableEq

def Member.text : Member → String
  | field name => ".-" ++ name
  | method name => "." ++ name
  | global path => "/".intercalate path

/-- One alternative of a function. -/
structure Variant where
  params : List String
  body : List Form

/-- Functions made while a program runs carry the number under which they were made; it alone tells
them apart. -/
inductive Function
  | special (form : SpecialForm)
  | primitive (op : Primitive)
  /-- Calls another function on a list of arguments. -/
  | apply
  | probe (p : Probe)
  | member (id : Nat) (m : Member)
  | closure (id : Nat) (name : Option String) (variants : List Variant)

namespace Function

/-- Two functions are the same if they are built in alike or made at the same time. -/
def same : Function → Function → Bool
  | special a, special b => a == b
  | primitive a, primitive b => a == b
  | apply, apply => true
  | probe a, probe b => a == b
  | member a _, member b _ => a == b
  | closure a _ _, closure b _ _ => a == b
  | _, _ => false

def applyName : String := "apply"

def name? : Function → Option String
  | special form => some form.name
  | primitive op => some op.name
  | apply => some applyName
  | probe p => some p.name
  | member _ m => some m.text
  | closure _ name _ => name

def isSpecial : Function → Bool
  | special _ => true
  | _ => false

def text : Function → String
  | special form => "#<special-form " ++ form.name ++ ">"
  | primitive op => "#<native-fn " ++ op.name ++ ">"
  | apply => "#<native-fn " ++ applyName ++ ">"
  | probe p => "#<native-fn " ++ p.name ++ ">"
  | member _ m => "#<native-fn " ++ m.text ++ ">"
  | closure _ (some name) _ => "#<fn " ++ name ++ ">"
  | closure _ none _ => "#<fn>"

end Function

end Lisplet
