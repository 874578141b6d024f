import ScriptGraph.Parser.Reading

/-!
# The grammar

```text
unit   = BREAK* (stmt (BREAK+ stmt)*)? BREAK* EOF
block  = "{" BREAK* (stmt (BREAK+ stmt)*)? BREAK* "}"
stmt   = "let" IDENT ("=" expr)?
       | expr
expr   = term ("=" expr)?
term   = NUMBER | STRING | IDENT
       | "(" expr ")"
       | "do" block
       | "fun" ("(" (IDENT ("," IDENT)*)? ")")? block
```

Other operators, calls and indexing are recognised where they would stand and refused. A statement,
an expression and a term each leave one term on the builder's stack.

Nested parts are read with less fuel. Twice the number of lexemes is enough, since no part is
entered a third time without a lexeme having been passed.
-/

namespace ScriptGraph.Grammar

/-- Whether a token starts a part of the language that has no graph yet. -/
def isReserved : Token → Bool
  | .kwIt | .kwSelf | .kwIf | .kwElse | .kwWhile | .kwReturn | .kwBreak | .kwContinue | .kwAsync =>
    true
  | _ => false

/-- Refuses an operator before a term. -/
def refuseUnary : Grammar Unit := do
  if (← current).token.isOperator then unsupported fun l => "unary operator " ++ l.describe

/-- Refuses what could follow a term other than an assignment. -/
def refuseSuffix : Grammar Unit := do
  let l ← current
  if l.token = .bracketLeft ∨ l.token = .dot then unsupported fun _ => "indexing"
  else if l.token = .parenLeft then unsupported fun _ => "function call"
  else if l.token.isOperator ∧ ¬l.isAssign then
    unsupported fun l => "binary operator " ++ l.describe

/-- Reads the end of a statement: a line break, or the closing token, which is not passed. -/
def endStatement (closing : Token) : Grammar Unit := do
  let l ← current
  if l.token = .breakLine then advance
  else if l.token = closing then return ()
  else expected "expected end of statement"

/-- Reads the names of parameters. -/
def parameterNames : Nat → Grammar Unit
  | 0 => expected "expected a parameter name"
  | fuel + 1 => do
    let (name, location) ← ident "expected a parameter name"
    issue (.parameter name location)
    if (← current).token = .comma then
      advance
      parameterNames fuel

/-- Reads a list of parameters in parentheses. -/
def parameters (fuel : Nat) : Grammar Unit := do
  advance
  if (← current).token ≠ .parenRight then parameterNames fuel
  expect .parenRight "expected `)` after parameters"

mutual

/-- Reads a statement. A variable is declared after its value has been read, so the value cannot see
it. -/
def statement : Nat → Grammar Unit
  | 0 => expected "expected an expression"
  | fuel + 1 => do
    if (← current).token = .kwLet then
      advance
      let (name, location) ← ident "expected a variable name after `let`"
      if (← current).isAssign then
        advance
        expression fuel
        issue (.define name location)
      else issue (.declare name location)
    else expression fuel

/-- Reads an expression. Assignments group to the right. -/
def expression : Nat → Grammar Unit
  | 0 => expected "expected an expression"
  | fuel + 1 => do
    refuseUnary
    term fuel
    refuseSuffix
    if (← current).isAssign then
      advance
      expression fuel
      issue .assign

/-- Reads a term. -/
def term : Nat → Grammar Unit
  | 0 => expected "expected an expression"
  | fuel + 1 => do
    let l ← current
    match l.token with
    | .number | .string =>
      issue (.constant l.value l.location)
      advance
    | .ident =>
      issue (.get l.name l.location)
      advance
    | .parenLeft =>
      advance
      expression fuel
      expect .parenRight "expected `)`"
    | .kwDo =>
      advance
      issue (.pushBlock true)
      expect .braceLeft "expected `\x7b`"
      statements fuel
      issue (.popBlock l.location)
    | .kwFun =>
      advance
      issue .pushFunction
      if (← current).token = .parenLeft then parameters fuel
      expect .braceLeft "expected `\x7b`"
      statements fuel
      issue (.popFunction l.location)
    | .bracketLeft => unsupported fun _ => "array literal"
    | .braceLeft => unsupported fun _ => "object literal"
    | t => if isReserved t then unsupported Lexeme.describe else expected "expected an expression"

/-- Reads the statements of a block and its closing brace. -/
def statements : Nat → Grammar Unit
  | 0 => expected "expected `\x7d`"
  | fuel + 1 => do
    skipBreaks
    let l ← current
    if l.token = .braceRight then advance
    else if l.token = .eof then expected "expected `\x7d`"
    else
      statement fuel
      issue .statement
      endStatement .braceRight
      statements fuel

end

/-- Reads the next statement of a unit, or the end of the unit. Returns whether it was a
statement. -/
def unitStep (fuel : Nat) (isFirst : Bool) : Grammar Bool := do
  if isFirst then
    issue .pushFunction
    start
  skipBreaks
  if (← current).token = .eof then
    issue (.popFunction .beginning)
    return false
  else
    statement fuel
    issue .statement
    endStatement .eof
    return true

end ScriptGraph.Grammar
