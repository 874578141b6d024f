import ScriptGraph.Builder.Pool
import ScriptGraph.Builder.Scope
import ScriptGraph.Error
import ScriptGraph.Graph.Reachable

/-!
# The graph builder

The builder keeps the functions and blocks that are open while their terms arrive in source order.
It resolves names to slots and hands the slots of a closed block out again:

- a name denotes the innermost local of that name in the current function, or else a global;
- locals of enclosing functions are not visible;
- assigning a variable to itself is undefined.

When the outermost function closes it becomes an entry point, and functions that no entry point
leads to are removed.
-/

namespace ScriptGraph

/-- A graph under construction. -/
structure Builder where
  functions : Pool FunctionScope := {}
  blocks : Pool BlockScope := {}
  graph : Graph := {}

namespace Builder

/-- The number of open functions. -/
def functionDepth (b : Builder) : Nat := b.functions.depth

/-- The number of open blocks. -/
def blockDepth (b : Builder) : Nat := b.blocks.depth

/-! ### Variables -/

/-- The blocks of the current function, innermost first. -/
def visibleBlocks (b : Builder) : List BlockScope :=
  match b.functions.top? with
  | some f => b.blocks.live.take (b.blocks.depth - f.firstBlock)
  | none => b.blocks.live

/-- The slot of a visible local. -/
def lookup? (b : Builder) (name : String) : Option Nat := BlockScope.find? b.visibleBlocks name

/-- A read of the variable with a name. -/
def get (b : Builder) (name : String) (location : Location) : Term :=
  match b.lookup? name with
  | some i => .getLocal i (some location)
  | none => .getGlobal name (some location)

/-- An assignment to the variable that a term reads. -/
def assign (target value : Term) : Except Error Term :=
  if target.isSameVariable value then .ok (.undefined target.location)
  else
    match target.promote? value with
    | some t => .ok t
    | none => .error (.invalidTarget (target.location.getD .unknown))

/-- Declares a local of the current block and reads it. -/
def declare (b : Builder) (name : String) (location : Location) : Except Error (Builder × Term) :=
  match b.functions.top?, b.blocks.top? with
  | some f, some block =>
    if (block.locals.lookup name).isSome then .error (.duplicateLocal location name)
    else
      let i := f.nextLocal
      let functions := b.functions.modifyTop fun f =>
        { f with nextLocal := i + 1, localCount := max f.localCount (i + 1) }
      let blocks := b.blocks.modifyTop fun s => { s with locals := (name, i) :: s.locals }
      .ok ({ b with functions, blocks }, .getLocal i (some location))
  | _, _ => .ok (b, .getLocal 0 (some location))

/-- Declares a parameter of the current function. Parameters come before any other local. -/
def addParameter (b : Builder) (name : String) (location : Location) : Except Error Builder := do
  let (b, _) ← b.declare name location
  return { b with functions := b.functions.modifyTop fun f => { f with arity := f.arity + 1 } }

/-! ### Blocks -/

/-- Appends a statement to the current block. -/
def addStatement (b : Builder) (t : Term) : Builder :=
  { b with blocks := { b.blocks with live := BlockScope.append b.blocks.live t } }

/-- Opens a block. -/
def pushBlock (b : Builder) (inherits : Bool) : Builder :=
  let firstLocal := (b.functions.top?.map FunctionScope.nextLocal).getD 0
  { b with blocks := b.blocks.push (BlockScope.reset inherits firstLocal) }

/-- Closes the current block and yields its value. Its slots become free. -/
def popBlock (b : Builder) (location : Location) : Builder × Term :=
  match b.blocks.top? with
  | some block =>
    let functions := b.functions.modifyTop fun f => { f with nextLocal := block.firstLocal }
    ({ b with functions, blocks := b.blocks.pop }, block.value location)
  | none => (b, .undefined (some location))

/-! ### Functions -/

/-- Opens a function and its body block. -/
def pushFunction (b : Builder) : Builder :=
  { b with
    functions := b.functions.push (FunctionScope.reset b.blocks.depth)
    blocks := b.blocks.push (BlockScope.reset false 0) }

/-- The graph with one more function. -/
def addFunction (g : Graph) (f : Function) : Graph := { g with functions := g.functions ++ [f] }

/-- The graph with its last function as an entry point and without what is not reachable. -/
def addEntry (g : Graph) : Graph :=
  { g with entryPoints := g.entryPoints ++ [g.size - 1] }.prune

/-- Closes the current function, adds it to the graph and refers to it. -/
def popFunction (b : Builder) (location : Location) : Builder × Term :=
  let (b, root) := b.popBlock location
  match b.functions.top? with
  | some f =>
    let functions := b.functions.pop
    let graph := addFunction b.graph ⟨f.localCount, f.arity, root⟩
    if functions.depth = 0 then
      let graph := addEntry graph
      ({ b with functions, graph }, .getFunction (graph.entryPoints.getLastD 0) (some location))
    else ({ b with functions, graph }, .getFunction (graph.size - 1) (some location))
  | none => (b, root)

end Builder

end ScriptGraph
