import ScriptGraph.Graph.Basic
import ScriptGraph.Json.Reader

/-!
# Graphs as documents

The JSON form of graphs. A term is an object with a `kind`, the fields of that kind and an optional
location; functions, locations and the graph itself are records. Members that no field is named
after are passed over. A graph read from a document refers only to functions that it has.
-/

namespace ScriptGraph

open Json (Fault Reader Value)

/-! ### Writing -/

/-- The value of a literal. -/
def Literal.toJson : Literal → Value
  | .undefined => .null
  | .number x => .number x
  | .string s => .string s

/-- The value of a location. -/
def Location.toJson (l : Location) : Value :=
  .object [("line", .natural l.line), ("column", .natural l.column)]

namespace Term

/-- The last member of a term, if it has a location. -/
def locationMember : Option Location → List (String × Value)
  | some l => [("location", l.toJson)]
  | none => []

mutual

/-- The value of a term. -/
def toJson : Term → Value
  | value v l => .object ([("kind", .string "value"), ("value", v.toJson)] ++ locationMember l)
  | block ts l =>
    .object ([("kind", .string "block"), ("terms", .array (toJsonAll ts))] ++ locationMember l)
  | getLocal i l =>
    .object ([("kind", .string "get_local"), ("index", .natural i)] ++ locationMember l)
  | setLocal i v l =>
    .object ([("kind", .string "set_local"), ("index", .natural i), ("value", toJson v)]
      ++ locationMember l)
  | getGlobal n l =>
    .object ([("kind", .string "get_global"), ("name", .string n)] ++ locationMember l)
  | setGlobal n v l =>
    .object ([("kind", .string "set_global"), ("name", .string n), ("value", toJson v)]
      ++ locationMember l)
  | getFunction i l =>
    .object ([("kind", .string "get_function"), ("index", .natural i)] ++ locationMember l)

/-- The values of a list of terms. -/
def toJsonAll : List Term → List Value
  | [] => []
  | t :: ts => toJson t :: toJsonAll ts

end

end Term

/-- The value of a function. -/
def Function.toJson (f : Function) : Value :=
  .object [("local_count", .natural f.localCount), ("arity", .natural f.arity),
    ("root", f.root.toJson)]

/-- The value of a graph. -/
def Graph.toJson (g : Graph) : Value :=
  .object [("functions", .array (g.functions.map Function.toJson)),
    ("entry_points", .array (g.entryPoints.map Value.natural))]

/-! ### Values to terms -/

/-- An index or a count. -/
def wordOf : Value → Except Fault Nat
  | .natural n => if n < Json.wordLimit then .ok n else .error .mismatched
  | _ => .error .mismatched

/-- A name. -/
def nameOf : Value → Except Fault String
  | .string s => .ok s
  | _ => .error .mismatched

/-- The only member with a key. -/
def memberOf (key : String) (ms : List (String × Value)) : Except Fault Value :=
  match ms.filter fun m => m.1 == key with
  | [(_, v)] => .ok v
  | _ => .error .mismatched

/-- The literal that a value denotes. -/
def Literal.ofValue : Value → Except Fault Literal
  | .null => .ok .undefined
  | .natural n => .ok (.number (.ofNat n))
  | .number x => .ok (.number x)
  | .string s => .ok (.string s)
  | _ => .error .mismatched

/-- The location that a value denotes, by name or in order. -/
def Location.ofValue : Value → Except Fault Location
  | .object ms => do
    return ⟨← wordOf (← memberOf "line" ms), ← wordOf (← memberOf "column" ms)⟩
  | .array [line, column] => do return ⟨← wordOf line, ← wordOf column⟩
  | _ => .error .mismatched

namespace Term

/-- The kinds of term, in order. -/
def kinds : List String :=
  ["value", "block", "get_local", "set_local", "get_global", "set_global", "get_function"]

/-- The kind that a value names, by its name or its place. -/
def kindOf : Value → Except Fault String
  | .string s => if s ∈ kinds then .ok s else .error .mismatched
  | .natural n => Json.required kinds[n]?
  | _ => .error .mismatched

/-- The term with the given members; `child` reads the terms beneath it. -/
def ofMembers (child : Value → Except Fault Term) (ms : List (String × Value))
    (location : Option Location) : Except Fault Term := do
  match ← kindOf (← memberOf "kind" ms) with
  | "value" => return .value (← Literal.ofValue (← memberOf "value" ms)) location
  | "block" =>
    match ← memberOf "terms" ms with
    | .array vs => return .block (← vs.mapM child) location
    | _ => .error .mismatched
  | "get_local" => return .getLocal (← wordOf (← memberOf "index" ms)) location
  | "set_local" =>
    return .setLocal (← wordOf (← memberOf "index" ms)) (← child (← memberOf "value" ms)) location
  | "get_global" => return .getGlobal (← nameOf (← memberOf "name" ms)) location
  | "set_global" =>
    return .setGlobal (← nameOf (← memberOf "name" ms)) (← child (← memberOf "value" ms)) location
  | _ => return .getFunction (← wordOf (← memberOf "index" ms)) location

/-- The optional location among the members of a term. -/
def locationOf (ms : List (String × Value)) : Except Fault (Option Location) :=
  match ms.filter fun m => m.1 == "location" with
  | [] | [(_, .null)] => .ok none
  | [(_, v)] => do return some (← Location.ofValue v)
  | _ => .error .mismatched

/-- The term that a value denotes. Terms nest no deeper than the document, so `levels` never runs
out. -/
def ofValue (levels : Nat) (v : Value) : Except Fault Term :=
  match levels, v with
  | n + 1, .object ms => do
    let location ← locationOf ms
    ofMembers (ofValue n) (ms.filter fun m => m.1 != "location") location
  | _, _ => .error .mismatched

end Term

/-! ### Reading -/

/-- A literal. -/
def Literal.read (levels : Nat) : Reader Literal := fun cs => do
  let (v, rest) ← Json.value levels cs
  return (← ofValue v, rest)

/-- Loads a literal from a document of its own. -/
def Literal.load (text : String) : Except Fault Literal :=
  Json.document (read Json.maxNesting) text

namespace Location

/-- A location by its fields' names. -/
def readByName : Reader Location := fun cs => do
  let member (s : Option Nat × Option Nat) (k : String) : Reader (Option Nat × Option Nat) :=
    if k = "line" then Json.field s.1 Json.word fun x => (some x, s.2)
    else if k = "column" then Json.field s.2 Json.word fun x => (s.1, some x)
    else Json.ignore s
  let ((line, column), rest) ← Json.members member (none, none) cs
  return (⟨← Json.required line, ← Json.required column⟩, rest)

/-- A location by its fields in order. -/
def readInOrder : Reader Location := fun cs => do
  let (line, cs) ← Json.element true Json.word cs
  let (column, cs) ← Json.element false Json.word cs
  return (⟨line, column⟩, ← Json.closeArray cs)

/-- A location. -/
def read (levels : Nat) : Reader Location :=
  Json.record levels (fun _ => readByName) (fun _ => readInOrder)

/-- A location or null. -/
def readOptional (levels : Nat) : Reader (Option Location) := fun cs =>
  match Json.skipBlanks cs with
  | 'n' :: cs => do return (none, ← Json.expectWord "ull".toList cs)
  | cs => do
    let (l, rest) ← read levels cs
    return (some l, rest)

/-- Loads a location from a document of its own. -/
def load (text : String) : Except Fault Location := Json.document (read Json.maxNesting) text

end Location

namespace Term

/-- What has been read of a term: its location, and the other members, the latest first. -/
structure Draft where
  location : Option (Option Location) := none
  members : List (String × Value) := []

/-- A term. Only its location is read as it comes; all else has to be a complete value first. -/
def read (levels : Nat) : Reader Term := fun cs => do
  let member (n : Nat) (d : Draft) (k : String) : Reader Draft :=
    if k = "location" then
      Json.field d.location (Location.readOptional n) fun l => { d with location := some l }
    else fun cs => do
      let (v, rest) ← Json.memberValue (Json.value n) cs
      return ({ d with members := (k, v) :: d.members }, rest)
  let (d, rest) ← Json.objectOf member {} levels cs
  let t ← ofMembers (ofValue Json.maxNesting) d.members.reverse (d.location.getD none)
  return (t, rest)

/-- Loads a term from a document of its own. -/
def load (text : String) : Except Fault Term := Json.document (read Json.maxNesting) text

end Term

namespace Function

/-- A function by its fields' names. -/
def readByName (levels : Nat) : Reader Function := fun cs => do
  let member (s : Option Nat × Option Nat × Option Term) (k : String) :
      Reader (Option Nat × Option Nat × Option Term) :=
    if k = "local_count" then Json.field s.1 Json.word fun x => (some x, s.2)
    else if k = "arity" then Json.field s.2.1 Json.word fun x => (s.1, some x, s.2.2)
    else if k = "root" then Json.field s.2.2 (Term.read levels) fun x => (s.1, s.2.1, some x)
    else Json.ignore s
  let ((count, arity, root), rest) ←
    Json.members member (none, none, none) cs
  return (⟨← Json.required count, ← Json.required arity, ← Json.required root⟩, rest)

/-- A function by its fields in order. -/
def readInOrder (levels : Nat) : Reader Function := fun cs => do
  let (count, cs) ← Json.element true Json.word cs
  let (arity, cs) ← Json.element false Json.word cs
  let (root, cs) ← Json.element false (Term.read levels) cs
  return (⟨count, arity, root⟩, ← Json.closeArray cs)

/-- A function. -/
def read (levels : Nat) : Reader Function := Json.record levels readByName readInOrder

end Function

namespace Graph

/-- The functions of a graph. -/
def readFunctions (levels : Nat) : Reader (List Function) := Json.arrayOf Function.read levels

/-- The entry points of a graph. -/
def readEntryPoints (levels : Nat) : Reader (List Nat) := Json.arrayOf (fun _ => Json.word) levels

/-- A graph by its fields' names. -/
def readByName (levels : Nat) : Reader Graph := fun cs => do
  let member (s : Option (List Function) × Option (List Nat)) (k : String) :
      Reader (Option (List Function) × Option (List Nat)) :=
    if k = "functions" then Json.field s.1 (readFunctions levels) fun x => (some x, s.2)
    else if k = "entry_points" then Json.field s.2 (readEntryPoints levels) fun x => (s.1, some x)
    else Json.ignore s
  let ((functions, entries), rest) ← Json.members member (none, none) cs
  return (⟨← Json.required functions, ← Json.required entries⟩, rest)

/-- A graph by its fields in order. -/
def readInOrder (levels : Nat) : Reader Graph := fun cs => do
  let (functions, cs) ← Json.element true (readFunctions levels) cs
  let (entries, cs) ← Json.element false (readEntryPoints levels) cs
  return (⟨functions, entries⟩, ← Json.closeArray cs)

/-- A graph, whatever its references denote. -/
def read (levels : Nat) : Reader Graph := Json.record levels readByName readInOrder

/-- Why a graph cannot be loaded. -/
inductive LoadError where
  /-- The document cannot be read. -/
  | document (fault : Fault)
  /-- A reference denotes no function. -/
  | dangling (index : Nat)
deriving DecidableEq

/-- The message of a load error, where the document itself is in order. -/
def LoadError.message? : LoadError → Option String
  | document _ => none
  | dangling i => some s!"function index {i} out of range"

/-- The kind of a load error. -/
def LoadError.fault : LoadError → Fault
  | document f => f
  | dangling _ => .mismatched

/-- Loads a graph, whatever its references denote. -/
def loadUnchecked (text : String) : Except LoadError Graph :=
  match Json.document (read Json.maxNesting) text with
  | .ok g => .ok g
  | .error f => .error (.document f)

/-- Loads a graph whose references all denote functions. -/
def load (text : String) : Except LoadError Graph := do
  let g ← loadUnchecked text
  match g.dangling? with
  | some i => .error (.dangling i)
  | none => return g

/-- The compact document of a graph. -/
def save (g : Graph) : String := g.toJson.render

/-- The indented document of a graph. -/
def saveIndented (g : Graph) : String := g.toJson.renderIndented

end Graph

end ScriptGraph
