import ScriptGraph.Term

/-!
# Scopes

What is known of a function and of a block while they are built.
-/

namespace ScriptGraph

/-- A function under construction. -/
structure FunctionScope where
  /-- The number of blocks that were open before the function's own. -/
  firstBlock : Nat := 0
  /-- The next free slot. -/
  nextLocal : Nat := 0
  /-- The largest number of slots in use at once. -/
  localCount : Nat := 0
  /-- The number of parameters. -/
  arity : Nat := 0
deriving Inhabited

/-- A record for a new function. -/
def FunctionScope.reset (firstBlock : Nat) (old : FunctionScope) : FunctionScope :=
  { old with firstBlock, nextLocal := 0, localCount := 0, arity := 0 }

/-- A block under construction. -/
structure BlockScope where
  /-- The locals that the block declares and their slots, the latest first. -/
  locals : List (String × Nat) := []
  /-- The statements that are known not to be last, the latest first. -/
  statements : List Term := []
  /-- The latest statement, held back because it may be the value of the block. -/
  result : Option Term := none
  /-- Whether the statements before the last belong to the enclosing block. -/
  inherits : Bool := false
  /-- The first slot that the block may use. -/
  firstLocal : Nat := 0
deriving Inhabited

namespace BlockScope

/-- A record for a new block. -/
def reset (inherits : Bool) (firstLocal : Nat) (old : BlockScope) : BlockScope :=
  { old with locals := [], statements := [], result := none, inherits, firstLocal }

/-- Appends a statement to the innermost of some blocks. The statement before it is then not the
last; an inheriting block hands it to the block around it. -/
def append : List BlockScope → Term → List BlockScope
  | [], _ => []
  | b :: outer, t =>
    match b.result with
    | none => { b with result := some t } :: outer
    | some previous =>
      if b.inherits then { b with result := some t } :: append outer previous
      else { b with result := some t, statements := previous :: b.statements } :: outer

/-- The slot of the innermost local of a name. -/
def find? (blocks : List BlockScope) (name : String) : Option Nat :=
  blocks.findSome? fun b => b.locals.lookup name

/-- The value of a closed block: statements without an effect are dropped unless they are last, a
single term stands for itself, and nothing is undefined. Of an inheriting block only the last
statement is left. -/
def value (b : BlockScope) (location : Location) : Term :=
  let undefined := Term.undefined (some location)
  if b.inherits then b.result.getD undefined
  else
    match (b.statements.filter fun t => !t.isPure).reverse, b.result with
    | [], last => last.getD undefined
    | terms, last => .block (terms ++ last.toList) (some location)

end BlockScope

end ScriptGraph
