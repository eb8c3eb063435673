import Lisplet.Text.ClusterClass

/-!
Grapheme clusters. A text falls into clusters at every place that no rule keeps together; the rules
are those of Unicode for extended clusters. Whether a character joins the cluster before it depends
on the classes of the characters in that cluster only, because every longer sequence that a rule
speaks of is held together by other rules.
-/

namespace Lisplet.Text

namespace ClusterClass

/-- Nothing joins these, and they join nothing. -/
def standsAlone : ClusterClass → Bool
  | carriageReturn | newline | control => true
  | _ => false

def isMark : ClusterClass → Bool
  | mark | linker | nonJoiner => true
  | _ => false

/-- What may stand between the consonants of a conjunct. -/
def isBetweenConsonants : ClusterClass → Bool
  | mark | linker | joiner => true
  | _ => false

/-- A consonant and marks behind it, a linker among them, wait for the next consonant. -/
def awaitsConsonant (before : List ClusterClass) : Bool :=
  (before.takeWhile isBetweenConsonants).contains linker &&
    (before.dropWhile isBetweenConsonants).head? == some consonant

/-- A pictograph, marks and a joiner wait for the next pictograph. -/
def awaitsPictograph : List ClusterClass → Bool
  | joiner :: before => (before.dropWhile isMark).head? == some pictograph
  | _ => false

/-- Regional indicators make pairs, and one of them waits for the other. -/
def awaitsRegional (before : List ClusterClass) : Bool :=
  (before.takeWhile (· == regional)).length % 2 = 1

def sameSyllable : ClusterClass → ClusterClass → Bool
  | leading, leading | leading, vowel | leading, openSyllable | leading, closedSyllable => true
  | openSyllable, vowel | openSyllable, trailing | vowel, vowel | vowel, trailing => true
  | closedSyllable, trailing | trailing, trailing => true
  | _, _ => false

/-- A character of class `next` belongs to the cluster with the classes in `before`, latest first.
-/
def joins (before : List ClusterClass) (next : ClusterClass) : Bool :=
  match before with
  | [] => false
  | last :: _ =>
    if last = carriageReturn ∧ next = newline then true
    else if last.standsAlone || next.standsAlone then false
    else if next.isMark || next = joiner || next = spacing || last = preceding then true
    else
      match next with
      | consonant => awaitsConsonant before
      | pictograph => awaitsPictograph before
      | regional => awaitsRegional before
      | next => sameSyllable last next

end ClusterClass

/-- The clusters of a text behind a cluster that is still open, given by its characters and their
classes, latest first. -/
def clustersBehind (chars : List Char) (classes : List ClusterClass) :
    List Char → List (List Char)
  | [] => [chars.reverse]
  | c :: cs =>
    let k := clusterClass c
    if ClusterClass.joins classes k then clustersBehind (c :: chars) (k :: classes) cs
    else chars.reverse :: clustersBehind [c] [k] cs

def clusters : List Char → List (List Char)
  | [] => []
  | c :: cs => clustersBehind [c] [clusterClass c] cs

theorem flatten_clustersBehind (chars : List Char) (classes : List ClusterClass) (cs : List Char) :
    (clustersBehind chars classes cs).flatten = chars.reverse ++ cs := by
  induction cs generalizing chars classes with
  | nil => simp [clustersBehind]
  | cons c cs ih =>
    rw [clustersBehind]
    split <;> simp [ih]

theorem flatten_clusters (cs : List Char) : (clusters cs).flatten = cs := by
  cases cs with
  | nil => rfl
  | cons c cs => simp [clusters, flatten_clustersBehind]

end Lisplet.Text
