import ScriptGraph.Graph.Document
import ScriptGraph.Graph.Tree
import ScriptGraph.Lexicon.Document
import ScriptGraph.Message
import ScriptGraph.Parser.Basic
import ScriptGraph.Text.Column

/-!
# Sessions

A session processes inputs with one lexicon, writes to two channels and counts the problems that it
reports. What lies outside of it is given as data: the files that can be read, and the bytes of
standard input, which are gone once read.
-/

namespace ScriptGraph

/-- A session with what it has written so far. -/
structure Session where
  lexicon : Lexicon := .standard
  /-- The content of a file, if it exists. -/
  files : String → Option (List UInt8)
  /-- The unread bytes of standard input. -/
  input : List UInt8 := []
  /-- Whether colours are used. -/
  coloured : Bool := false
  warningCount : Nat := 0
  errorCount : Nat := 0
  stdout : String := ""
  stderr : String := ""

namespace Session

/-- Whether no error has been reported. -/
def succeeded (s : Session) : Bool := s.errorCount = 0

/-! ### Writing -/

/-- Writes a text. -/
def print (s : Session) (text : String) : Session := { s with stdout := s.stdout ++ text }

/-- Reports an informational text. -/
def log (s : Session) (text : String) : Session := { s with stderr := s.stderr ++ text ++ "\n" }

/-- Reports a warning. -/
def logWarning (s : Session) (text : String) : Session :=
  { s.log (Colour.yellow.paint s.coloured text) with warningCount := s.warningCount + 1 }

/-- Reports an error. -/
def logError (s : Session) (text : String) : Session :=
  { s.log (Colour.red.paint s.coloured text) with errorCount := s.errorCount + 1 }

/-- Reports a message at the level of its severity. -/
def tell (s : Session) (m : Message) : Session :=
  match m.severity.level with
  | .log => s.log m.render
  | .warning => s.logWarning m.render
  | .error => s.logError m.render

/-! ### Inputs -/

/-- Why a file that does not exist cannot be read. -/
def missingFile : String := "No such file or directory (os error 2)"

/-- Reads a file, or standard input if the path is `-`. -/
def read (s : Session) (path : String) : Session × Option (List UInt8) :=
  if path = "-" then ({ s with input := [] }, some s.input)
  else
    match s.files path with
    | some bytes => (s, some bytes)
    | none => (s.tell (.unreadable path missingFile), none)

/-- Replaces the lexicon by that of the language with the overrides in a file. Answers whether it
could. -/
def loadKeywords (s : Session) (path : String) : Session × Bool :=
  match s.read path with
  | (s, none) => (s, false)
  | (s, some bytes) =>
    match Lexicon.load (Utf8.decode bytes) with
    | .ok lexicon => ({ s with lexicon }, true)
    | .error _ => (s.tell (.badOverrides path), false)

/-- Parses a source text; an error is reported. -/
def parse (s : Session) (path : String) (source : List UInt8) : Session × Option Graph :=
  match ScriptGraph.parse s.lexicon source with
  | .ok g => (s, some g)
  | .error e => (s.tell (.ofError path e), none)

/-! ### Tables and graphs -/

/-- The lines above the rows of a token table. -/
def tableHead : String :=
  "╭──────────┬────────┬────────┬───────────────┬──────────────────────╮\n" ++
  "│ LINE     │ OFFSET │ LENGTH │ TYPE          │ VALUE                │\n" ++
  "╞══════════╪════════╪════════╪═══════════════╪══════════════════════╡\n"

/-- The line below the rows of a token table. -/
def tableFoot : String :=
  "╰──────────┴────────┴────────┴───────────────┴──────────────────────╯\n"

/-- The row of a lexeme. -/
def tableRow (l : Lexeme) : String :=
  let cells :=
    [Column.left 8 l.location.render, Column.right 6 (toString l.start),
      Column.right 6 (toString l.bytes.length), Column.left 13 l.token.name,
      Column.left 20 (Column.cut 20 l.value.render)]
  "│ " ++ " │ ".intercalate cells ++ " │\n"

/-- Writes the table of the significant tokens of a source text, up to the end or an error, which is
reported. -/
def printTokens (s : Session) (path : String) (source : List UInt8) : Session :=
  let stream := (Lexer.ofBytes s.lexicon source).stream
  let rows (ls : List Lexeme) := String.join (ls.map tableRow)
  let table (ls : List Lexeme) := "[" ++ path ++ ":tokens]\n" ++ tableHead ++ rows ls ++ tableFoot
  match stream.ending with
  | .finished eof => s.print (table (stream.lexemes ++ [eof]))
  | .broken e _ => (s.print (table stream.lexemes)).tell (.ofError path e)

/-- Writes a graph as a tree or as a document. -/
def printGraph (s : Session) (path : String) (g : Graph) (asDocument : Bool) : Session :=
  if asDocument then s.print (g.saveIndented ++ "\n")
  else s.print ("[" ++ path ++ ":graph]\n" ++ g.display s.coloured)

end Session

end ScriptGraph
