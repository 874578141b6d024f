/-!
# Faults of JSON documents
-/

namespace ScriptGraph.Json

/-- Why a document cannot be read. -/
inductive Fault where
  /-- The text ends before the value does. -/
  | incomplete
  /-- The text is no JSON text. -/
  | malformed
  /-- The value has not the expected shape. -/
  | mismatched
deriving DecidableEq, Repr

namespace Fault

/-- The name of the kind of fault. -/
def category : Fault → String
  | incomplete => "eof"
  | malformed => "syntax"
  | mismatched => "data"

end Fault

/-- Reads a value at the start of a text and returns it with the rest. -/
abbrev Reader (α : Type) := List Char → Except Fault (α × List Char)

/-- The text without its leading blanks. -/
def skipBlanks (cs : List Char) : List Char :=
  cs.dropWhile fun c => c == ' ' || c == '\n' || c == '\t' || c == '\r'

/-- The text after the given characters, which have to stand at its start. -/
def expectWord : List Char → List Char → Except Fault (List Char)
  | [], cs => .ok cs
  | _ :: _, [] => .error .incomplete
  | w :: ws, c :: cs => if w = c then expectWord ws cs else .error .malformed

end ScriptGraph.Json
