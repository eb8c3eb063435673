import Lisplet.Interpreter

/-!
The command line: settings from the environment, then the arguments on top of them.
-/

namespace Lisplet

namespace Config

def maxDepthKey : String := "SPLIKE_MAX_DEPTH"

def accessKey : String := "SPLIKE_ALLOW_HOST"

/-- A decimal number of at most 64 bits, possibly with a plus sign. -/
def readWord? (cs : List Char) : Option Nat :=
  let ds := match cs with
    | '+' :: ds => ds
    | ds => ds
  if ds ≠ [] ∧ ds.all Char.isDigit ∧ Number.digitsValue ds < 2 ^ 64 then
    some (Number.digitsValue ds)
  else none

/-- A depth limit; zero is none, as nothing could be evaluated. -/
def readMaxDepth (key value : String) : Except Cause Nat :=
  match readWord? (Text.trim value).toList with
  | some (n + 1) => .ok (n + 1)
  | _ => .error (.setting key value)

/-- Namespaces between commas; blanks around them and empty ones are dropped. -/
def readScopes (value : String) : List String :=
  ((Text.split [','] value.toList).map fun cs => Text.trim (String.ofList cs)).filter (· ≠ "")

def ofEnvironment (env : String → Option String) : Except Cause Config := do
  let config := Config.default
  let config ← match env maxDepthKey with
    | some value => do
      let maxDepth ← readMaxDepth maxDepthKey value
      pure { config with maxDepth }
    | none => pure config
  match env accessKey with
  | some value => return { config with access := .only (readScopes value) }
  | none => return config

end Config

inductive Command
  | version
  | help
  | run (config : Config) (files : List String)

namespace Command

def extension : String := "splike"

/-- A path, last character first, without slashes and lone dots at its end. -/
def dropTail : List Char → List Char
  | '/' :: cs => dropTail cs
  | '.' :: '/' :: cs => dropTail cs
  | cs => cs

/-- A file name has an extension if a dot stands behind its first character. -/
def hasExtension (name : List Char) : Bool := name.tail.contains '.'

/-- The file that an argument names: one without an extension gets that of source files. A path
without a last component stays as it is. -/
def sourcePath (arg : String) : String :=
  let reversed := dropTail arg.toList.reverse
  let name := (reversed.takeWhile (· ≠ '/')).reverse
  if name = [] ∨ name = ['.'] ∨ name = ['.', '.'] ∨ hasExtension name then arg
  else String.ofList reversed.reverse ++ "." ++ extension

def maxDepthFlag : String := "--max-depth"

def accessFlag : String := "--allow-host"

def valueOf? (flag arg : String) : Option String :=
  let start := (flag ++ "=").toList
  if start.isPrefixOf arg.toList then some (String.ofList (arg.toList.drop start.length)) else none

def setMaxDepth (config : Config) (value : String) : Except Cause Config := do
  let maxDepth ← Config.readMaxDepth Config.maxDepthKey value
  return { config with maxDepth }

def setAccess (config : Config) (value : String) : Config :=
  { config with access := .only (Config.readScopes value) }

/-- An argument that stands for itself: a flag with its value in it, or a file. -/
def takeSingle (config : Config) (files : List String) (arg : String) :
    Except Cause (Config × List String) :=
  match valueOf? maxDepthFlag arg, valueOf? accessFlag arg with
  | some value, _ => do
    let config ← setMaxDepth config value
    return (config, files)
  | none, some value => .ok (setAccess config value, files)
  | none, none =>
    if arg.toList.head? = some '-' ∧ arg.toList.length ≠ 1 then .error (.setting "option" arg)
    else .ok (config, files ++ [sourcePath arg])

/-- Takes arguments from the left. Asking for the version or for help ends the command line. -/
def takeArgs (config : Config) (files : List String) : List String → Except Cause Command
  | [] => .ok (.run config files)
  | "-v" :: _ | "--version" :: _ => .ok .version
  | "-h" :: _ | "--help" :: _ => .ok .help
  | "--no-prelude" :: args => takeArgs { config with prelude := false } files args
  | ["--max-depth"] => .error (.setting maxDepthFlag "")
  | "--max-depth" :: value :: args => do
    let config ← setMaxDepth config value
    takeArgs config files args
  | ["--allow-host"] => .error (.setting accessFlag "")
  | "--allow-host" :: value :: args => takeArgs (setAccess config value) files args
  | arg :: args => do
    let (config, files) ← takeSingle config files arg
    takeArgs config files args

def ofArgs (env : String → Option String) (args : List String) : Except Cause Command := do
  let config ← Config.ofEnvironment env
  takeArgs config [] args

end Command

end Lisplet
