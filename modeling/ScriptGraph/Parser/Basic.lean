import ScriptGraph.Parser.Grammar

/-!
# The parser

A parser adds the function of one source unit to a graph, one statement of the unit at a time, so
that a host can do other work in between. It ends with the graph complete or with one error. Several
units can go into one graph: the builder of a finished parser is handed to the next one.
-/

namespace ScriptGraph

/-- How far a parser has come. -/
inductive Phase where
  /-- Nothing has been read. -/
  | fresh
  /-- Between statements. -/
  | parsing
  /-- The unit is complete. -/
  | done
  /-- The parse was given up after an error. -/
  | failed
deriving DecidableEq, Repr

/-- A parser of one unit. -/
structure Parser where
  /-- The number of lexemes of the whole unit, which bounds how deep its parts nest. -/
  size : Nat
  /-- The lexemes still to read. -/
  lexemes : List Lexeme
  ending : Ending
  current : Lexeme
  builder : Builder := {}
  phase : Phase := .fresh

namespace Parser

/-- A parser that reads from a lexer into the graph of a builder. -/
def ofLexer (lexer : Lexer) (builder : Builder) : Parser :=
  let stream := lexer.stream
  { size := stream.lexemes.length
    lexemes := stream.lexemes
    ending := stream.ending
    current := lexer.current
    builder }

/-- Carries issued instructions out, up to the first that fails. -/
def perform (m : Machine) : List Event → Except Failure Machine
  | [] => .ok m
  | e :: es =>
    match m.step e.instruction with
    | (m, .ok _) => perform m es
    | (_, .error error) => .error ⟨error, e.current⟩

/-- Whether the unit is complete. -/
def isDone (p : Parser) : Bool := p.phase = .done

/-- Whether the parse was given up. -/
def isFailed (p : Parser) : Bool := p.phase = .failed

/-- The parser after an error. -/
def abandon (p : Parser) (failure : Failure) : Parser × Except Error Bool :=
  ({ p with current := failure.current, phase := .failed }, .error failure.error)

/-- Enough fuel for each statement of the unit. -/
def fuel (p : Parser) : Nat := 2 * p.size + 8

/-- Parses the next statement. Answers whether there may be more; after the end and after an error
there is no more. -/
def update (p : Parser) : Parser × Except Error Bool :=
  if p.isDone ∨ p.isFailed then (p, .ok false)
  else
    let reading := Grammar.unitStep p.fuel (p.phase = .fresh) p.ending p.lexemes
    match perform { builder := p.builder } reading.trace.toList, reading.result with
    | .error failure, _ => p.abandon failure
    | .ok _, .error failure => p.abandon failure
    | .ok m, .ok (more, lexemes) =>
      let current := Grammar.currentOf p.ending lexemes
      let phase := if more then .parsing else .done
      ({ p with lexemes, current, builder := m.builder, phase }, .ok more)

/-- The graph of a complete unit. -/
def graph? (p : Parser) : Option Graph := if p.isDone then some p.builder.graph else none

/-- The builder of a complete unit. -/
def builder? (p : Parser) : Option Builder := if p.isDone then some p.builder else none

/-- Parses statements until there are no more, at most `n` of them. -/
def run : Nat → Parser → Except Error Parser
  | 0, p => .ok p
  | n + 1, p =>
    match p.update with
    | (_, .error e) => .error e
    | (p, .ok true) => run n p
    | (p, .ok false) => .ok p

end Parser

/-- The graph of a unit that is parsed alone. -/
def Lexer.parse (l : Lexer) : Except Error Graph := do
  let parser := Parser.ofLexer l {}
  let parser ← parser.run (parser.size + 1)
  return parser.graph?.getD {}

theorem Lexer.parse_eq_map (l : Lexer) :
    l.parse = ((Parser.ofLexer l {}).run ((Parser.ofLexer l {}).size + 1)).map fun p =>
      p.graph?.getD {} := by
  rw [parse]
  cases (Parser.ofLexer l {}).run ((Parser.ofLexer l {}).size + 1) <;> rfl

/-- The graph of a source text. -/
def parse (lexicon : Lexicon) (source : List UInt8) : Except Error Graph :=
  (Lexer.ofBytes lexicon source).parse

end ScriptGraph
