/-!
Places in a source text. Lines and columns count from one, columns in characters; only a newline
starts a new line.
-/

namespace Lisplet

structure Position where
  line : Nat
  column : Nat
  deriving Repr, DecidableEq

namespace Position

def start : Position := ⟨1, 1⟩

/-- The place behind one character. -/
def next (p : Position) (c : Char) : Position :=
  if c = '\n' then ⟨p.line + 1, 1⟩ else ⟨p.line, p.column + 1⟩

/-- The place behind a stretch of text. -/
def past (p : Position) (cs : List Char) : Position := cs.foldl next p

@[simp] theorem past_nil (p : Position) : p.past [] = p := rfl

@[simp] theorem past_cons (p : Position) (c : Char) (cs : List Char) :
    p.past (c :: cs) = (p.next c).past cs := rfl

theorem past_append (p : Position) (cs ds : List Char) :
    p.past (cs ++ ds) = (p.past cs).past ds := by
  simp [past]

end Position

/-- Where a form starts. -/
structure Location where
  file : String
  position : Position
  deriving Repr, DecidableEq

def Location.text (l : Location) : String :=
  l.file ++ ":" ++ l.position.line.repr ++ ":" ++ l.position.column.repr

end Lisplet
