import ScriptGraph.Error
import ScriptGraph.Lexicon
import ScriptGraph.Number.Reading

/-!
# Diagnostic messages

A message names a source file, or the program itself, and a place in it, if one is known. Telling a
message to a log succeeds unless the log refuses it or the message is an error.
-/

namespace ScriptGraph

/-- The name of the program, for messages that concern no source file. -/
def programName : String := "skein"

/-- How grave a message is. -/
inductive Severity where
  | normal
  /-- A problem that does not prevent parsing. -/
  | warning
  /-- A problem that ends the parse of one input. -/
  | error
  /-- A problem that ends the program. -/
  | fatal
deriving DecidableEq, Repr

/-- The text that a severity puts before a message. -/
def Severity.label : Severity → String
  | normal => ""
  | warning => "warning: "
  | error => "error: "
  | fatal => "fatal: "

/-- The levels of a log. -/
inductive Level where
  | log | warning | error
deriving DecidableEq, Repr

/-- The level at which messages of a severity are told. -/
def Severity.level : Severity → Level
  | normal => .log
  | warning => .warning
  | error | fatal => .error

/-- A diagnostic message. -/
structure Message where
  severity : Severity
  source : String := programName
  location : Location := .unknown
  content : String

namespace Message

/-- The text of a message. -/
def render (m : Message) : String :=
  let separator := if m.location.isKnown then ":" else ""
  m.source ++ separator ++ m.location.render ++ ": " ++ m.severity.label ++ m.content

/-- Whether telling the message succeeds with a log that accepts it or not. -/
def isTold (m : Message) (accepted : Bool) : Bool :=
  match m.severity.level with
  | .log | .warning => accepted
  | .error => false

/-! ### Common messages -/

/-- An input cannot be read. -/
def unreadable (path reason : String) : Message :=
  { severity := .error, source := path, content := "cannot read file: " ++ reason }

/-- A source text is refused. -/
def ofError (path : String) (e : Error) : Message :=
  { severity := .error, source := path, location := e.location, content := e.message }

/-- Keyword overrides cannot be used. -/
def badOverrides (path : String) : Message :=
  { severity := .fatal, source := path, content := "invalid keyword overrides" }

/-! ### Reports with a position -/

/-- What stands before and after the last occurrence of a pattern. -/
def splitLast? (pattern : List Char) : List Char → Option (List Char × List Char)
  | [] => none
  | c :: cs =>
    match splitLast? pattern cs with
    | some (before, after) => some (c :: before, after)
    | none =>
      if pattern.isPrefixOf (c :: cs) then some ([], (c :: cs).drop pattern.length) else none

/-- A number that fits a 64-bit word. -/
def readCount? (digits : List Char) : Option Nat :=
  let n := Number.digitsValue digits
  if digits.isEmpty ∨ 0x10000000000000000 ≤ n then none else some n

/-- A report without the position at its end, and the position. -/
def splitPosition? (report : String) : Option (String × Nat × Nat) := do
  let (before, after) ← splitLast? " at line ".toList report.toList
  let rest := after.dropWhile Char.isDigit
  guard (" column ".toList.isPrefixOf rest)
  let column := rest.drop " column ".length
  guard (column.all Char.isDigit)
  let line ← readCount? (after.takeWhile Char.isDigit)
  let column ← readCount? column
  return (String.ofList before, line, column)

/-- Keyword overrides cannot be used, for a reason that may end in a position in the document. Line
zero is no position. -/
def badOverridesAt (path report : String) : Message :=
  let (reason, line, column) := (splitPosition? report).getD (report, 0, 0)
  let place := if line = 0 then "" else s!" at line {line} column {column}"
  { badOverrides path with
    location := ⟨line % 0x100000000, column % 0x100000000⟩
    content := "invalid keyword overrides: " ++ reason ++ place }

end Message

end ScriptGraph
