/-!
How a case mapping is written down: most characters map to one other at a constant distance along a
run of code points, some to several characters, and all others to themselves.
-/

namespace Lisplet.Text

/-- Code points at the same distance from their images: first, last, step and distance. -/
abbrev CaseRun := Nat × Nat × Nat × Int

structure CaseMap where
  runs : List CaseRun
  expansions : List (Nat × List Nat)

namespace CaseMap

/-- The image of a code point under the first run that has it. Runs are sorted by where they start,
so those past the code point need not be looked at. -/
def along? : List CaseRun → Nat → Option Nat
  | [], _ => none
  | (first, last, step, distance) :: runs, n =>
    if n < first then none
    else if n ≤ last ∧ (n - first) % step = 0 then some (n + distance).toNat
    else along? runs n

/-- The images of a code point that has several; these are sorted too. -/
def expansion? : List (Nat × List Nat) → Nat → Option (List Nat)
  | [], _ => none
  | (m, several) :: expansions, n =>
    if n < m then none else if n = m then some several else expansion? expansions n

def image (m : CaseMap) (c : Char) : List Char :=
  match expansion? m.expansions c.toNat, along? m.runs c.toNat with
  | some several, _ => several.map Char.ofNat
  | none, some n => [Char.ofNat n]
  | none, none => [c]

end CaseMap

end Lisplet.Text
