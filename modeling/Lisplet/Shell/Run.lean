import Lisplet.Shell.Command
import Lisplet.Shell.Line
import Lisplet.Shell.Prompt

/-!
The whole program as a function: what it writes and the code it ends with, given its environment,
its arguments, its input and how files are read.
-/

namespace Lisplet.Shell

structure Result where
  code : Nat
  output : String
  diagnostics : String
  deriving Repr, DecidableEq

def name : String := "Splike v0.1.0"

def usage : String := "\n".intercalate
  [ "Usage: splike [OPTIONS] [FILE...]",
    "",
    "Runs each FILE in order, or starts a REPL when none are given.",
    "A FILE without an extension has .splike appended.",
    "",
    "Options:",
    "      --no-prelude        Do not load the standard prelude",
    "      --max-depth <N>     Evaluation depth limit",
    "      --allow-host <NS>   Comma-separated host namespaces to allow",
    "  -v, --version           Print version",
    "  -h, --help              Print this help",
    "",
    "Environment:",
    "  SPLIKE_MAX_DEPTH, SPLIKE_ALLOW_HOST   Defaults for the options above",
    "  SPLIKE_LOG (or RUST_LOG)              Log filter, e.g. splike_core=debug" ]

def greeting : String := name ++ "\nCtrl-C clears the current input, Ctrl-D exits.\n"

/-- The end of a program whose arguments make no sense. -/
def badArgs (cause : Cause) : Result :=
  ⟨2, "", cause.category ++ ": " ++ cause.message ++ "\n" ++ usage ++ "\n"⟩

/-- The end of a program that has no session to run in. -/
def noSession (e : Failure) : Result := ⟨1, "", "Failed to load prelude: " ++ e.report ++ "\n"⟩

def finish (code : Nat) (s : Session) : Result := ⟨code, s.output, s.diagnostics⟩

/-- Runs a file: reading it is part of the run. -/
def runFile (config : Config) (read : String → Except FileFault String) (path : String) :
    Eval Value :=
  match read path with
  | .ok source => config.runSource path source
  | .error fault => Eval.fail (.file path fault)

/-- Runs files in order up to the first that fails. -/
def runFiles (config : Config) (read : String → Except FileFault String) (s : Session) :
    List String → Result
  | [] => finish 0 s
  | path :: paths =>
    match runFile config read path s with
    | .ok _ s => runFiles config read s paths
    | .error e s => finish 1 (s.write .diagnostics (Prompt.reportText e))

/-- Runs what the lines of the input say. -/
def runPrompt (config : Config) (lines : List String) (s : Session) : Result :=
  let s := { s with output := s.output ++ greeting }
  finish 0 (Prompt.State.feedAll config ⟨s, ""⟩ lines).session

/-- Answers the arguments: a wrong one ends the program with the usage, and without files the input
is read as at the prompt. -/
def run (env : String → Option String) (read : String → Except FileFault String) (input : String)
    (args : List String) : Result :=
  match Command.ofArgs env args with
  | .error cause => badArgs cause
  | .ok .version => ⟨0, name ++ "\n", ""⟩
  | .ok .help => ⟨0, usage ++ "\n", ""⟩
  | .ok (.run config files) =>
    match config.start with
    | .error e => noSession e
    | .ok s =>
      if files.isEmpty then runPrompt config (Line.ofInput input) s
      else runFiles config read s files

end Lisplet.Shell
