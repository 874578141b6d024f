import ScriptGraph.Session

/-!
# The command line

The command prints the tokens or the graphs of its input files. Its options may stand among the
files, short ones may be combined, and `--` ends them.
-/

namespace ScriptGraph

/-- What the command is asked to do. -/
structure Options where
  tokens : Bool := false
  graph : Bool := false
  document : Bool := false
  keywords : Option String := none
  files : List String := []

/-- A request on the command line. -/
inductive Request where
  | version
  | process (options : Options)

namespace Options

/-- The name and version of the program. -/
def version : String := programName ++ " 0.0.0\n"

/-- Whether graphs are to be printed: on request, or if nothing else is. -/
def printsGraph (o : Options) : Bool := o.graph || o.document || !o.tokens

/-- An option without a value, given once. -/
inductive Flag where
  | tokens | graph | document | version

/-- What an option's name stands for. -/
inductive Switch where
  | flag (f : Flag)
  | keywords

/-- The option with a short name. -/
def ofShort? : Char → Option Switch
  | 't' => some (.flag .tokens)
  | 'g' => some (.flag .graph)
  | 'j' => some (.flag .document)
  | 'V' => some (.flag .version)
  | 'k' => some .keywords
  | _ => none

/-- The option with a long name. -/
def ofLong? : String → Option Switch
  | "tokens" => some (.flag .tokens)
  | "graph" => some (.flag .graph)
  | "json" => some (.flag .document)
  | "version" => some (.flag .version)
  | "keywords" => some .keywords
  | _ => none

/-- The step of reading an argument: the options so far, the option that waits for its value, or the
end. A usage error is nothing. -/
inductive Progress where
  | ready (options : Options)
  | waiting (options : Options)
  | version

/-- The options with a flag set, which may not be set before. -/
def setFlag (o : Options) : Flag → Option Progress
  | .tokens => if o.tokens then none else some (.ready { o with tokens := true })
  | .graph => if o.graph then none else some (.ready { o with graph := true })
  | .document => if o.document then none else some (.ready { o with document := true })
  | .version => some .version

/-- The options with a keyword file, which may not be given before. -/
def setKeywords (o : Options) (path : String) : Option Progress :=
  if o.keywords.isSome then none else some (.ready { o with keywords := some path })

/-- Reads combined short options. The value of an option may follow it at once or after an equals
sign. -/
def readShort (o : Options) : List Char → Option Progress
  | [] => some (.ready o)
  | c :: cs =>
    match ofShort? c with
    | none => none
    | some .keywords =>
      match cs with
      | [] => some (.waiting o)
      | '=' :: cs => o.setKeywords (String.ofList cs)
      | cs => o.setKeywords (String.ofList cs)
    | some (.flag f) =>
      match o.setFlag f with
      | some (.ready o) => readShort o cs
      | progress => progress

/-- Reads a long option after its dashes. -/
def readLong (o : Options) (cs : List Char) : Option Progress :=
  let name := String.ofList (cs.takeWhile (· != '='))
  match ofLong? name, cs.dropWhile (· != '=') with
  | some (.flag f), [] => o.setFlag f
  | some .keywords, [] => some (.waiting o)
  | some .keywords, _ :: value => o.setKeywords (String.ofList value)
  | _, _ => none

/-- Reads one argument: long options, combined short options or a file. -/
def readArgument (o : Options) (arg : String) : Option Progress :=
  match arg.toList with
  | '-' :: '-' :: cs => readLong o cs
  | '-' :: c :: cs => readShort o (c :: cs)
  | _ => some (.ready { o with files := o.files ++ [arg] })

/-- Whether an argument can be the value of an option. An option cannot, a single dash can. -/
def isValue (arg : String) : Bool := arg = "-" || arg.toList.head? != some '-'

/-- The request for complete options, which need a file. -/
def request? (o : Options) : Option Request :=
  if o.files.isEmpty then none else some (.process o)

/-- Reads the arguments one after another. -/
def readAll (o : Options) : List String → Option Request
  | [] => o.request?
  | "--" :: files => request? { o with files := o.files ++ files }
  | arg :: args =>
    match o.readArgument arg with
    | none => none
    | some .version => some .version
    | some (.ready o) => readAll o args
    | some (.waiting o) =>
      match args with
      | [] => none
      | value :: args =>
        match if isValue value then o.setKeywords value else none with
        | some (.ready o) => readAll o args
        | _ => none

end Options

/-- The request that arguments stand for, or nothing if they make no sense. -/
def Request.ofArguments? (args : List String) : Option Request := Options.readAll {} args

namespace Session

/-- Processes one input file. -/
def processFile (s : Session) (o : Options) (path : String) : Session :=
  match s.read path with
  | (s, none) => s
  | (s, some source) =>
    let s := if o.tokens then s.printTokens path source else s
    if o.printsGraph then
      match s.parse path source with
      | (s, some g) => s.printGraph path g o.document
      | (s, none) => s
    else s

/-- Carries out a request: loads the keywords, if any, and then processes each file. Answers whether
all went well. -/
def process (s : Session) (o : Options) : Session × Bool :=
  let (s, ready) :=
    match o.keywords with
    | some path => s.loadKeywords path
    | none => (s, true)
  if ready then
    let s := o.files.foldl (fun s path => s.processFile o path) s
    (s, s.succeeded)
  else (s, false)

end Session

/-- What a run of the command leaves behind. -/
structure Outcome where
  code : Nat
  stdout : String
  stderr : String

/-- Carries out a request in a session. -/
def Request.run (s : Session) : Request → Outcome
  | .version => ⟨0, Options.version, ""⟩
  | .process o =>
    let (s, ok) := s.process o
    ⟨if ok then 0 else 1, s.stdout, s.stderr⟩

/-- The paths that a request may read. -/
def Request.paths : Request → List String
  | .version => []
  | .process o => o.keywords.toList ++ o.files

end ScriptGraph
