import ScriptGraph.Builder.Basic

/-!
# Building by instructions

A builder with a stack of terms, driven by instructions. An instruction takes its operands from the
stack and leaves there the term that it yields.
-/

namespace ScriptGraph

/-- A step of building. -/
inductive Instruction where
  | pushFunction
  | popFunction (location : Location)
  | pushBlock (inherits : Bool)
  | popBlock (location : Location)
  /-- Yields a constant. -/
  | constant (value : Literal) (location : Location)
  /-- Yields a read of a variable. -/
  | get (name : String) (location : Location)
  /-- Declares a local and yields a read of it. -/
  | declare (name : String) (location : Location)
  /-- Takes a value, declares a local and yields the assignment of the value to it. -/
  | define (name : String) (location : Location)
  /-- Declares a parameter. -/
  | parameter (name : String) (location : Location)
  /-- Takes a value and then a target, and yields the assignment. -/
  | assign
  /-- Takes a term as the next statement. -/
  | statement
  /-- Yields a given term. -/
  | push (term : Term)
  /-- Yields the last term again. -/
  | duplicate
  /-- Takes a term away. -/
  | drop

/-- A builder and a stack of terms, the last one first. -/
structure Machine where
  builder : Builder := {}
  operands : List Term := []

namespace Machine

/-- The machine after a term has been yielded. -/
def yield (m : Machine) (t : Term) : Machine × Except Error (Option Term) :=
  ({ m with operands := t :: m.operands }, .ok (some t))

/-- Carries an instruction out. The answer is the term that it yields, if any, or an error, which
leaves the builder as it was. -/
def step (m : Machine) : Instruction → Machine × Except Error (Option Term)
  | .pushFunction => ({ m with builder := m.builder.pushFunction }, .ok none)
  | .popFunction l =>
    let (builder, t) := m.builder.popFunction l
    { m with builder }.yield t
  | .pushBlock inherits => ({ m with builder := m.builder.pushBlock inherits }, .ok none)
  | .popBlock l =>
    let (builder, t) := m.builder.popBlock l
    { m with builder }.yield t
  | .constant v l => m.yield (.value v (some l))
  | .get name l => m.yield (m.builder.get name l)
  | .declare name l =>
    match m.builder.declare name l with
    | .ok (builder, t) => { m with builder }.yield t
    | .error e => (m, .error e)
  | .define name l =>
    match m.operands, m.builder.declare name l with
    | value :: operands, .ok (builder, target) =>
      match Builder.assign target value with
      | .ok t => yield { builder, operands } t
      | .error e => ({ m with operands }, .error e)
    | _, .error e => (m, .error e)
    | [], .ok _ => (m, .ok none)
  | .parameter name l =>
    match m.builder.addParameter name l with
    | .ok builder => ({ m with builder }, .ok none)
    | .error e => (m, .error e)
  | .assign =>
    match m.operands with
    | value :: target :: operands =>
      match Builder.assign target value with
      | .ok t => yield { m with operands } t
      | .error e => ({ m with operands }, .error e)
    | _ => (m, .ok none)
  | .statement =>
    match m.operands with
    | t :: operands => ({ builder := m.builder.addStatement t, operands }, .ok none)
    | [] => (m, .ok none)
  | .push t => m.yield t
  | .duplicate =>
    match m.operands with
    | t :: _ => m.yield t
    | [] => (m, .ok none)
  | .drop => ({ m with operands := m.operands.tail }, .ok none)

end Machine

end ScriptGraph
