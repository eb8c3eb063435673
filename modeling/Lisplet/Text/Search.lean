/-!
Searching and splitting. A text is searched by its bytes, and a place that is found there is turned
into a position by counting the characters before it. Cutting a text at every occurrence of a
separator goes leftmost first and without overlap.
-/

namespace Lisplet.Text

def indexOf? {α : Type} [BEq α] (needle : List α) : List α → Option Nat
  | [] => if needle.isEmpty then some 0 else none
  | x :: xs => if needle.isPrefixOf (x :: xs) then some 0 else (indexOf? needle xs).map (· + 1)

def bytes (cs : List Char) : List UInt8 := cs.flatMap String.utf8EncodeChar

/-- How many characters begin in some bytes. -/
def charCount (bs : List UInt8) : Nat := bs.countP fun b => decide b.IsUTF8FirstByte

def position? (needle cs : List Char) : Option Nat :=
  let bs := bytes cs
  (indexOf? (bytes needle) bs).map fun i => charCount (bs.take i)

/-- Cuts at a nonempty separator; `skip` more characters of one that was found are left out. -/
def splitFrom (sep : List Char) : (skip : Nat) → List Char → List (List Char)
  | _, [] => [[]]
  | skip + 1, _ :: cs => splitFrom sep skip cs
  | 0, c :: cs =>
    if sep.isPrefixOf (c :: cs) then [] :: splitFrom sep (sep.length - 1) cs
    else
      match splitFrom sep 0 cs with
      | piece :: pieces => (c :: piece) :: pieces
      | [] => [[c]]

/-- The pieces between the occurrences of a separator; the empty separator cuts between all
characters. -/
def split (sep cs : List Char) : List (List Char) :=
  if sep.isEmpty then cs.map ([·]) else splitFrom sep 0 cs

def cut {α : Type} (start stop : Nat) (xs : List α) : List α := (xs.take stop).drop start

end Lisplet.Text
