import Lisplet.Failure

/-!
A directory held in memory: files under their paths, and empty directories, whose names end in a
slash. A path is followed step by step, and a step can only be taken from a directory. The
directories above this one are there too, but nothing is known of what else they hold.
-/

namespace Lisplet

structure Files where
  entries : List (String × ByteArray)

namespace Files

inductive Entry
  | file (bytes : ByteArray)
  | directory

/-- A step that stays where it is. -/
def isIdle (step : String) : Bool := step = "" || step = "."

def steps (path : String) : List String := path.splitOn "/"

/-- The place that a name in the directory stands for. -/
def place (name : String) : List String := (steps name).filter (!isIdle ·)

def find? (files : Files) (here : List String) : Option Entry :=
  let file := files.entries.find? fun (name, _) => place name = here ∧ !name.endsWith "/"
  match file with
  | some (_, bytes) => some (.file bytes)
  | none =>
    if here.all (· = "..") || files.entries.any fun (name, _) => here.isPrefixOf (place name) then
      some .directory
    else none

def up (here : List String) : List String :=
  if here.all (· = "..") then here ++ [".."] else here.dropLast

/-- Follows the steps of a path from a place. -/
def follow (files : Files) (here : List String) : List String → Except FileFault (List String)
  | [] => .ok here
  | step :: rest =>
    match files.find? here with
    | none => .error .missing
    | some (.file _) => .error .notDirectory
    | some .directory =>
      if isIdle step then files.follow here rest
      else if step = ".." then files.follow (up here) rest
      else files.follow (here ++ [step]) rest

/-- The text of the file under a path; a path that starts with a slash starts above. -/
def read (files : Files) (path : String) : Except FileFault String := do
  if path = "" then throw .missing
  let found ← files.follow (if path.startsWith "/" then [".."] else []) (steps path)
  match files.find? found with
  | none => throw .missing
  | some .directory => throw .directory
  | some (.file bytes) =>
    match String.fromUTF8? bytes with
    | some text => return text
    | none => throw .notText

end Files

end Lisplet
