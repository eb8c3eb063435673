import Lisplet.Shell.Run

/-!
The command line program. It reads files and lines and prints what the session wrote since the last
time; everything else is done by the functions it calls.
-/

namespace Lisplet.Terminal

def readSource (path : String) : IO (Except FileFault String) := do
  try
    let bytes ← IO.FS.readBinFile path
    match String.fromUTF8? bytes with
    | some text => return .ok text
    | none => return .error .notText
  catch e =>
    match e with
    | .noFileOrDirectory .. | .noSuchThing .. => return .error .missing
    | .inappropriateType _ 20 _ => return .error .notDirectory
    | .inappropriateType .. => return .error .directory
    | e => return .error (.other (toString e))

/-- Prints what a session has written, and the session without it. -/
def flush (s : Session) : IO Session := do
  IO.print s.output
  IO.eprint s.diagnostics
  (← IO.getStdout).flush
  return { s with output := "", diagnostics := "" }

partial def promptLoop (config : Config) (st : Prompt.State) : IO Unit := do
  let session ← flush st.showPrompt.session
  let line ← (← IO.getStdin).getLine
  unless line.isEmpty do
    let line := (Line.ofInput line).headD ""
    promptLoop config ({ st with session }.feed config line)

def runFiles (config : Config) (s : Session) : List String → IO UInt32
  | [] => return 0
  | path :: paths => do
    let source ← readSource path
    match Shell.runFile config (fun _ => source) path s with
    | .ok _ s =>
      let s ← flush s
      runFiles config s paths
    | .error e s =>
      let _ ← flush (s.write .diagnostics (Prompt.reportText e))
      return 1

def finish (r : Shell.Result) : IO UInt32 := do
  IO.print r.output
  IO.eprint r.diagnostics
  return r.code.toUInt32

end Lisplet.Terminal

open Lisplet Terminal in
def main (args : List String) : IO UInt32 := do
  let depth ← IO.getEnv Config.maxDepthKey
  let access ← IO.getEnv Config.accessKey
  let env key :=
    if key = Config.maxDepthKey then depth else if key = Config.accessKey then access else none
  match Command.ofArgs env args with
  | .ok (.run config files) =>
    match config.start with
    | .error e => finish (Shell.noSession e)
    | .ok s =>
      if files.isEmpty then
        promptLoop config ⟨{ s with output := s.output ++ Shell.greeting }, ""⟩
        return 0
      else runFiles config s files
  | _ => finish (Shell.run env (fun _ => .error .missing) "" args)
