import Lisplet.Text.Cluster
import Lisplet.Text.Search

/-!
Lines of input. A line is what was typed: a backspace in it takes back the cluster before it.
-/

namespace Lisplet.Line

def backspace : Char := '\x08'

/-- A line as far as it is typed: its characters and the sizes of its clusters in bytes, both latest
first. A size is kept in one byte, so only a part of a longer cluster can be taken back. -/
structure Typed where
  chars : List Char
  sizes : List UInt8

namespace Typed

def empty : Typed := ⟨[], []⟩

/-- Leaves out characters until so many bytes are gone. -/
def dropBytes : Nat → List Char → List Char
  | n + 1, c :: cs => dropBytes (n + 1 - c.utf8Size) cs
  | _, cs => cs

def takeBack (t : Typed) : Typed :=
  ⟨dropBytes (t.sizes.headD 0).toNat t.chars, t.sizes.tail⟩

def put (t : Typed) (cluster : List Char) : Typed :=
  if cluster = [backspace] then t.takeBack
  else ⟨cluster.reverse ++ t.chars, (String.ofList cluster).utf8ByteSize.toUInt8 :: t.sizes⟩

end Typed

/-- What is left of a line after all its backspaces. -/
def edited (cs : List Char) : List Char :=
  ((Text.clusters cs).foldl Typed.put .empty).chars.reverse

/-- A line ends in a newline, before which a carriage return is dropped; the last need not end. -/
def split (cs : List Char) : List (List Char) :=
  let pieces := Text.split ['\n'] cs
  let ended := pieces.dropLast.map fun piece =>
    if piece.getLast? = some '\r' then piece.dropLast else piece
  let last := pieces.getLast?.getD []
  ended ++ if last = [] then [] else [last]

/-- The lines of an input. -/
def ofInput (input : String) : List String :=
  (split input.toList).map fun line => String.ofList (edited line)

end Lisplet.Line
