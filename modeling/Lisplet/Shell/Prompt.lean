import Lisplet.Interpreter

/-!
The prompt. Lines are gathered until they make whole forms, which are then evaluated together; a
line that cannot become part of any form is reported and everything gathered with it dropped.
-/

namespace Lisplet.Prompt

def file : String := "<repl>"

/-- What becomes of the text gathered so far. -/
inductive Intake
  | blank
  | waiting
  | refused (e : ReadError)
  | ready (forms : List Form)

def intake (text : String) : Intake :=
  if Text.trim text = "" then .blank
  else
    match parse file text with
    | .ok forms => .ready forms
    | .error e => if e.fault.isIncomplete then .waiting else .refused e

/-- A session at the prompt and the text it waits to see completed. -/
structure State where
  session : Session
  buffer : String

/-- The failure as it is shown; the word in front marks a fatal one. -/
def reportText (e : Failure) : String :=
  if e.cause.isFatal then "Fatal: " ++ e.report else e.report

/-- Evaluates forms and shows their value or failure. -/
def evaluateShown (config : Config) (forms : List Form) (s : Session) : Session :=
  match config.runForms forms s with
  | .ok v s => s.write .output (s.heap.inspect v)
  | .error e s => s.write .diagnostics (reportText e)

def State.feed (config : Config) (st : State) (line : String) : State :=
  let text := st.buffer ++ line ++ "\n"
  match intake text with
  | .blank => { st with buffer := "" }
  | .waiting => { st with buffer := text }
  | .refused e => ⟨st.session.write .diagnostics (reportText (.ofCause (.unreadable e))), ""⟩
  | .ready forms => ⟨evaluateShown config forms st.session, ""⟩

def State.prompt (st : State) : String := if st.buffer = "" then "splike> " else "   ...> "

def State.showPrompt (st : State) : State :=
  { st with session := { st.session with output := st.session.output ++ st.prompt } }

/-- Takes in all lines, the prompt in front of each and once more at the end. -/
def State.feedAll (config : Config) (st : State) (lines : List String) : State :=
  (lines.foldl (fun st line => st.showPrompt.feed config line) st).showPrompt

end Lisplet.Prompt
