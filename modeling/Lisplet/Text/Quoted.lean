/-!
Quoted text: a backslash stands before a quote and a backslash, and newline, tab and carriage
return are written as letters after one. Everything else stands for itself.
-/

namespace Lisplet.Text

/-- What a character becomes inside quotes. -/
def escapeChar : Char → List Char
  | '"' => ['\\', '"']
  | '\\' => ['\\', '\\']
  | '\n' => ['\\', 'n']
  | '\t' => ['\\', 't']
  | '\r' => ['\\', 'r']
  | c => [c]

/-- The character that a letter after a backslash stands for. -/
def unescape? : Char → Option Char
  | 'n' => some '\n'
  | 't' => some '\t'
  | 'r' => some '\r'
  | '\\' => some '\\'
  | '"' => some '"'
  | _ => none

def escape (s : String) : String := String.ofList (s.toList.flatMap escapeChar)

def quote (s : String) : String := "\"" ++ escape s ++ "\""

theorem escapeChar_eq (c : Char) :
    escapeChar c = [c] ∨ ∃ l, escapeChar c = ['\\', l] ∧ unescape? l = some c := by
  unfold escapeChar
  split <;> simp [unescape?]

end Lisplet.Text
