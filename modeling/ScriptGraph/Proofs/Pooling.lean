import ScriptGraph.Proofs.Scopes

/-!
# Pooled scopes are as good as new ones

A builder hands the records of closed functions and blocks out again, with whatever they hold. A
view is a builder without that economy: its stacks take a new record for each scope that is opened
and let it go when the scope is closed. The two cannot be told apart by any instructions, since a
record that is handed out again is reset in every field.
-/

namespace ScriptGraph

/-- What is seen of a building machine after an instruction. -/
structure Observation where
  /-- The term that the instruction yields, if any, or an error. -/
  answer : Except Error (Option Term)
  functionDepth : Nat
  blockDepth : Nat
  graph : Graph

/-- What is seen of a machine while it carries instructions out one after another. -/
def Machine.observe (m : Machine) : List Instruction → List Observation
  | [] => []
  | i :: is =>
    let (m, answer) := m.step i
    ⟨answer, m.builder.functionDepth, m.builder.blockDepth, m.builder.graph⟩ :: m.observe is

/-! ### Building with plain stacks -/

namespace View

/-- The blocks of the current function, innermost first. -/
def visibleBlocks (v : View) : List BlockScope :=
  match v.functions with
  | f :: _ => v.blocks.take (v.blocks.length - f.firstBlock)
  | [] => v.blocks

/-- A read of the variable with a name. -/
def get (v : View) (name : String) (location : Location) : Term :=
  match BlockScope.find? v.visibleBlocks name with
  | some i => .getLocal i (some location)
  | none => .getGlobal name (some location)

/-- Declares a local of the current block and reads it. -/
def declare (v : View) (name : String) (location : Location) : Except Error (View × Term) :=
  match v.functions, v.blocks with
  | f :: functions, b :: blocks =>
    if (b.locals.lookup name).isSome then .error (.duplicateLocal location name)
    else
      .ok ({ v with
        functions := f.withLocal :: functions
        blocks := b.withLocal name f.nextLocal :: blocks }, .getLocal f.nextLocal (some location))
  | _, _ => .ok (v, .getLocal 0 (some location))

/-- Declares a parameter of the current function. -/
def addParameter (v : View) (name : String) (location : Location) : Except Error View :=
  (v.declare name location).map fun (v, _) => v.addArity 1

/-- Appends a statement to the current block. -/
def addStatement (v : View) (t : Term) : View :=
  { v with blocks := BlockScope.append v.blocks t }

/-- Opens a block, which has a new record. -/
def openBlock (v : View) (inherits : Bool) : View :=
  v.pushBlock inherits ((v.functions.head?.map FunctionScope.nextLocal).getD 0)

/-- Closes the current block, whose record is gone, and yields its value. -/
def popBlock (v : View) (location : Location) : View × Term :=
  match v.blocks with
  | b :: blocks =>
    let functions := v.functions.modifyHead fun f => { f with nextLocal := b.firstLocal }
    ({ v with functions, blocks }, b.value location)
  | [] => (v, .undefined (some location))

/-- Closes the current function, whose record is gone, adds it to the graph and refers to it. -/
def popFunction (v : View) (location : Location) : View × Term :=
  let (v, root) := v.popBlock location
  match v.functions with
  | f :: functions =>
    let graph := Builder.addFunction v.graph ⟨f.localCount, f.arity, root⟩
    if functions.isEmpty then
      let graph := Builder.addEntry graph
      ({ v with functions, graph }, .getFunction (graph.entryPoints.getLastD 0) (some location))
    else ({ v with functions, graph }, .getFunction (graph.size - 1) (some location))
  | [] => (v, root)

end View

/-- A machine that builds with plain stacks: a view and a stack of terms, the last one first. -/
structure PlainMachine where
  view : View
  operands : List Term

namespace PlainMachine

/-- The machine after a term has been yielded. -/
def yield (m : PlainMachine) (t : Term) : PlainMachine × Except Error (Option Term) :=
  ({ m with operands := t :: m.operands }, .ok (some t))

/-- Carries an instruction out. An error leaves the view as it was. -/
def step (m : PlainMachine) : Instruction → PlainMachine × Except Error (Option Term)
  | .pushFunction => ({ m with view := m.view.pushFunction }, .ok none)
  | .popFunction l =>
    let (view, t) := m.view.popFunction l
    { m with view }.yield t
  | .pushBlock inherits => ({ m with view := m.view.openBlock inherits }, .ok none)
  | .popBlock l =>
    let (view, t) := m.view.popBlock l
    { m with view }.yield t
  | .constant v l => m.yield (.value v (some l))
  | .get name l => m.yield (m.view.get name l)
  | .declare name l =>
    match m.view.declare name l with
    | .ok (view, t) => { m with view }.yield t
    | .error e => (m, .error e)
  | .define name l =>
    match m.operands, m.view.declare name l with
    | value :: operands, .ok (view, target) =>
      match Builder.assign target value with
      | .ok t => yield { view, operands } t
      | .error e => ({ m with operands }, .error e)
    | _, .error e => (m, .error e)
    | [], .ok _ => (m, .ok none)
  | .parameter name l =>
    match m.view.addParameter name l with
    | .ok view => ({ m with view }, .ok none)
    | .error e => (m, .error e)
  | .assign =>
    match m.operands with
    | value :: target :: operands =>
      match Builder.assign target value with
      | .ok t => yield { m with operands } t
      | .error e => ({ m with operands }, .error e)
    | _ => (m, .ok none)
  | .statement =>
    match m.operands with
    | t :: operands => ({ view := m.view.addStatement t, operands }, .ok none)
    | [] => (m, .ok none)
  | .push t => m.yield t
  | .duplicate =>
    match m.operands with
    | t :: _ => m.yield t
    | [] => (m, .ok none)
  | .drop => ({ m with operands := m.operands.tail }, .ok none)

/-- What is seen of a machine while it carries instructions out one after another. -/
def observe (m : PlainMachine) : List Instruction → List Observation
  | [] => []
  | i :: is =>
    let (m, answer) := m.step i
    ⟨answer, m.view.functions.length, m.view.blocks.length, m.view.graph⟩ :: m.observe is

end PlainMachine

/-! ### Both alike -/

namespace Builder

/-- Whichever record the pool hands out, a reset leaves nothing of what it held. -/
lemma view_openBlock (b : Builder) (inherits : Bool) :
    (b.pushBlock inherits).view = b.view.openBlock inherits := by
  simp only [view, pushBlock, Pool.live_push, BlockScope.reset]
  rfl

lemma visibleBlocks_view (b : Builder) : b.view.visibleBlocks = b.visibleBlocks := by
  obtain ⟨⟨functions, _⟩, _, _⟩ := b
  cases functions <;> rfl

lemma get_view (b : Builder) (n : String) (l : Location) : b.view.get n l = b.get n l := by
  rw [View.get, visibleBlocks_view]
  rfl

lemma declare_view (b : Builder) (n : String) (l : Location) :
    b.view.declare n l = (b.declare n l).map fun (b', t) => (b'.view, t) := by
  obtain ⟨⟨functions, _⟩, ⟨blocks, _⟩, _⟩ := b
  cases functions with
  | nil => rfl
  | cons f functions =>
    cases blocks with
    | nil => rfl
    | cons block blocks =>
      simp only [View.declare, declare, view, Pool.top?, List.head?_cons]
      split <;> rfl

lemma addParameter_view (b : Builder) (n : String) (l : Location) :
    b.view.addParameter n l = (b.addParameter n l).map view := by
  rw [View.addParameter, declare_view, addParameter]
  cases b.declare n l with
  | error e => rfl
  | ok r =>
    have harity : r.1.view.addArity 1 = view { r.1 with
        functions := r.1.functions.modifyTop fun f => { f with arity := f.arity + 1 } } := by
      simp only [View.addArity, view, view_modifyTop]
    exact congrArg Except.ok harity

lemma popBlock_view (b : Builder) (l : Location) :
    b.view.popBlock l = ((b.popBlock l).1.view, (b.popBlock l).2) := by
  obtain ⟨functions, ⟨blocks, _⟩, _⟩ := b
  cases blocks with
  | nil => rfl
  | cons block blocks =>
    simp only [View.popBlock, popBlock, view, Pool.top?, List.head?_cons, view_modifyTop,
      Pool.live_pop, List.tail_cons]

lemma popFunction_view (b : Builder) (l : Location) :
    b.view.popFunction l = ((b.popFunction l).1.view, (b.popFunction l).2) := by
  rw [View.popFunction, popFunction, popBlock_view]
  rcases b.popBlock l with ⟨⟨⟨_ | ⟨f, functions⟩, _⟩, blocks, graph⟩, root⟩
  · rfl
  · cases functions <;> rfl

end Builder

namespace Machine

/-- A machine without the records that wait to be used again. -/
def plain (m : Machine) : PlainMachine := ⟨m.builder.view, m.operands⟩

/-- An instruction does to a machine with plain stacks what it does to one with pools, with the same
answer. -/
theorem step_plain (m : Machine) (i : Instruction) :
    m.plain.step i = ((m.step i).1.plain, (m.step i).2) := by
  obtain ⟨b, operands⟩ := m
  cases i with
  | pushFunction => simp only [plain, PlainMachine.step, step, Builder.view_pushFunction]
  | popFunction l =>
    simp only [plain, PlainMachine.step, step, Builder.popFunction_view]
    rfl
  | pushBlock inherits => simp only [plain, PlainMachine.step, step, Builder.view_openBlock]
  | popBlock l =>
    simp only [plain, PlainMachine.step, step, Builder.popBlock_view]
    rfl
  | constant v l | push t | drop => rfl
  | get n l =>
    simp only [plain, PlainMachine.step, step, Builder.get_view]
    rfl
  | declare n l =>
    simp only [plain, PlainMachine.step, step, Builder.declare_view]
    cases b.declare n l <;> rfl
  | define n l =>
    simp only [plain, PlainMachine.step, step, Builder.declare_view]
    rcases b.declare n l with e | ⟨b', target⟩
    · cases operands <;> rfl
    · cases operands with
      | nil => rfl
      | cons value operands =>
        simp only [Except.map]
        cases Builder.assign target value <;> rfl
  | parameter n l =>
    simp only [plain, PlainMachine.step, step, Builder.addParameter_view]
    cases b.addParameter n l <;> rfl
  | assign =>
    rcases operands with _ | ⟨value, _ | ⟨target, operands⟩⟩
    · rfl
    · rfl
    · simp only [plain, PlainMachine.step, step]
      cases Builder.assign target value <;> rfl
  | statement | duplicate => cases operands <;> rfl

end Machine

/-- Nothing that is left in the record of a closed function or block is ever seen: a machine answers
all instructions, in whatever order and with whatever terms, as one with plain stacks of new records
does, and has the same depths and the same graph after each of them. The machine may have closed any
scopes before. -/
theorem pooling_unobservable (m : Machine) (is : List Instruction) :
    m.observe is = m.plain.observe is := by
  induction is generalizing m with
  | nil => rfl
  | cons i is ih =>
    rw [Machine.observe, PlainMachine.observe, Machine.step_plain]
    exact congrArg _ (ih (m.step i).1)

end ScriptGraph
