import Mathlib.Logic.Function.Basic
import ScriptGraph.Proofs.View

/-!
# Building elsewhere

What a builder holds can be moved: its terms to other places and its references to other functions,
and the graph with them. A builder that has been moved goes on as before with all that it is given
moved likewise. Every instruction keeps the two in step and fails in both or in none.
-/

namespace ScriptGraph

/-- Whether two results are related errors or related values. -/
inductive Alongside (E : ε → δ → Prop) (R : α → β → Prop) : Except ε α → Except δ β → Prop
  | error {e : ε} {d : δ} (h : E e d) : Alongside E R (.error e) (.error d)
  | ok {a : α} {b : β} (h : R a b) : Alongside E R (.ok a) (.ok b)

/-! ### Terms and blocks -/

namespace Term

variable (r : Renaming)

@[simp] lemma isPure_rename (t : Term) : (t.rename r).isPure = t.isPure := by
  cases t <;> rfl

@[simp] lemma location_rename (t : Term) : (t.rename r).location = r.location t.location := by
  cases t <;> rfl

@[simp] lemma promote?_rename (t u : Term) :
    (t.rename r).promote? (u.rename r) = (t.promote? u).map (rename r) := by
  cases t <;> rfl

lemma isSameVariable_rename {r : Renaming} (hr : r.slot.Injective) (t u : Term) :
    (t.rename r).isSameVariable (u.rename r) = t.isSameVariable u := by
  cases t <;> cases u <;> simp [rename, isSameVariable, hr.eq_iff]

end Term

namespace BlockScope

variable (r : Term.Renaming)

/-- A block with its statements renamed. -/
def rename (b : BlockScope) : BlockScope :=
  { b with
    statements := b.statements.map (Term.rename r)
    result := b.result.map (Term.rename r) }

lemma append_rename (bs : List BlockScope) (t : Term) :
    append (bs.map (rename r)) (t.rename r) = (append bs t).map (rename r) := by
  induction bs generalizing t with
  | nil => rfl
  | cons b outer ih =>
    obtain ⟨locals, statements, result, inherits, firstLocal⟩ := b
    cases result with
    | none => rfl
    | some previous =>
      cases inherits with
      | false => rfl
      | true => simp [append, rename, ← ih]

lemma value_rename {r : Term.Renaming} {l k : Location} (hl : r.location (some l) = some k)
    (b : BlockScope) : (b.rename r).value k = (b.value l).rename r := by
  obtain ⟨locals, statements, result, inherits, firstLocal⟩ := b
  have hundefined : Term.undefined (some k) = (Term.undefined (some l)).rename r := by
    simp only [Term.undefined, Term.rename, hl]
  have hgetD : (result.map (Term.rename r)).getD (.undefined (some k)) =
      (result.getD (.undefined (some l))).rename r := by
    rw [hundefined]
    cases result <;> rfl
  cases inherits with
  | true => exact hgetD
  | false =>
    have hfilter : (statements.map (Term.rename r)).filter (fun t => !t.isPure) =
        (statements.filter fun t => !t.isPure).map (Term.rename r) := by
      rw [List.filter_map]
      congr 1
      apply List.filter_congr
      intro t _
      simp
    simp only [value, rename, Bool.false_eq_true, if_false, hfilter, ← List.map_reverse]
    cases (statements.filter fun t => !t.isPure).reverse with
    | nil => exact hgetD
    | cons t ts => cases result <;> simp [Term.rename, hl]

lemma find?_rename (bs : List BlockScope) (name : String) :
    find? (bs.map (rename r)) name = find? bs name := by
  rw [find?, List.findSome?_map]
  rfl

end BlockScope

/-! ### Transports -/

/-- A move of terms and their graphs that building does not notice: a graph can be moved before or
after a function has been added to it. -/
structure Transport where
  /-- Where a function goes. -/
  function : Nat → Nat
  /-- Where the location of a term goes. -/
  location : Option Location → Option Location
  /-- Where a location goes. -/
  place : Location → Location
  /-- Where a graph goes. -/
  graph : Graph → Graph
  location_some (l : Location) : location (some l) = some (place l)
  location_unknown : (location none).getD .unknown = place .unknown
  graph_addFunction (g : Graph) (f : Function) :
    graph (Builder.addFunction g f) =
      Builder.addFunction (graph g) { f with root := f.root.rename { function, location } }
  last_graph (g : Graph) (hg : 0 < g.size) : (graph g).size - 1 = function (g.size - 1)
  graph_addEntry (g : Graph) (hg : 0 < g.size) :
    graph (Builder.addEntry g) = Builder.addEntry (graph g)
  entry_graph (g : Graph) :
    (graph (Builder.addEntry g)).entryPoints.getLastD 0 =
      function ((Builder.addEntry g).entryPoints.getLastD 0)

namespace Transport

variable (μ : Transport)

/-- What a transport does to terms. -/
def relabel : Term.Renaming := { function := μ.function, location := μ.location }

lemma getD_location (l : Option Location) :
    (μ.location l).getD .unknown = μ.place (l.getD .unknown) := by
  cases l with
  | none => exact μ.location_unknown
  | some l =>
    rw [μ.location_some]
    rfl

end Transport

/-- The error at another location. -/
def Error.move (place : Location → Location) : Error → Error
  | decode l => decode (place l)
  | unexpected l expectation got => unexpected (place l) expectation got
  | naming l content => naming (place l) content
  | unsupported l what => unsupported (place l) what

lemma Error.eq_move_id (e : Error) : e = e.move id := by
  cases e <;> rfl

/-- The instruction with what it is given moved. -/
def Instruction.move (μ : Transport) : Instruction → Instruction
  | .pushFunction => .pushFunction
  | .popFunction l => .popFunction (μ.place l)
  | .pushBlock inherits => .pushBlock inherits
  | .popBlock l => .popBlock (μ.place l)
  | .constant v l => .constant v (μ.place l)
  | .get name l => .get name (μ.place l)
  | .declare name l => .declare name (μ.place l)
  | .define name l => .define name (μ.place l)
  | .parameter name l => .parameter name (μ.place l)
  | .assign => .assign
  | .statement => .statement
  | .push t => .push (t.rename μ.relabel)
  | .duplicate => .duplicate
  | .drop => .drop

/-- The view moved. -/
def View.move (μ : Transport) (v : View) : View where
  functions := v.functions
  blocks := v.blocks.map (BlockScope.rename μ.relabel)
  graph := μ.graph v.graph

/-! ### Builders -/

namespace Builder

variable {μ : Transport} {a s : Builder}

/-- Whether the second of two builders holds what the first one does, moved. -/
def Moved (μ : Transport) (a s : Builder) : Prop := s.view = a.view.move μ

lemma Moved.functions (h : Moved μ a s) : s.functions.live = a.functions.live :=
  congrArg View.functions h

lemma Moved.blocks (h : Moved μ a s) :
    s.blocks.live = a.blocks.live.map (BlockScope.rename μ.relabel) :=
  congrArg View.blocks h

lemma Moved.graph (h : Moved μ a s) : s.graph = μ.graph a.graph := congrArg View.graph h

lemma Moved.get (h : Moved μ a s) (name : String) (l : Location) :
    s.get name (μ.place l) = (a.get name l).rename μ.relabel := by
  have hvisible : s.visibleBlocks = a.visibleBlocks.map (BlockScope.rename μ.relabel) := by
    simp only [visibleBlocks, Pool.top?, Pool.depth, h.functions, h.blocks, List.length_map]
    split
    · rw [List.map_take]
    · rfl
  have hlookup : s.lookup? name = a.lookup? name := by
    rw [lookup?, hvisible, BlockScope.find?_rename, lookup?]
  rw [Builder.get, hlookup, Builder.get]
  cases a.lookup? name <;> simp [Term.rename, Transport.relabel, μ.location_some]

/-- Whether two operations of builders yield the same error, up to its location, or related
results. -/
abbrev Together (μ : Transport) (R : α → β → Prop) : Except Error α → Except Error β → Prop :=
  Alongside (fun e d => d = e.move μ.place) R

lemma assign_moved (μ : Transport) (target value : Term) :
    Together μ (fun t u => u = t.rename μ.relabel) (assign target value)
      (assign (target.rename μ.relabel) (value.rename μ.relabel)) := by
  have hsame : (target.rename μ.relabel).isSameVariable (value.rename μ.relabel) =
      target.isSameVariable value := Term.isSameVariable_rename Function.injective_id _ _
  simp only [assign, hsame, Term.promote?_rename, Term.location_rename]
  split
  · exact .ok rfl
  · cases target.promote? value with
    | none =>
      refine .error ?_
      rw [Transport.relabel, μ.getD_location]
      rfl
    | some t => exact .ok rfl

lemma Moved.declare (h : Moved μ a s) (name : String) (l : Location) :
    Together μ (fun r r' => Moved μ r.1 r'.1 ∧ r'.2 = r.2.rename μ.relabel)
      (a.declare name l) (s.declare name (μ.place l)) := by
  have hread (i : Nat) : Term.getLocal i (some (μ.place l)) =
      (Term.getLocal i (some l)).rename μ.relabel := by
    simp only [Term.rename, Transport.relabel, μ.location_some, id]
  simp only [Builder.declare, Pool.top?, h.functions, h.blocks, List.head?_map]
  rcases hf : a.functions.live with _ | ⟨f, fs⟩
  · exact .ok ⟨h, hread 0⟩
  rcases hb : a.blocks.live with _ | ⟨b, bs⟩
  · exact .ok ⟨h, hread 0⟩
  simp only [List.head?_cons, Option.map_some, BlockScope.rename]
  split
  · exact .error rfl
  · refine .ok ⟨?_, hread _⟩
    simp [Moved, View.move, view, view_modifyTop, h.functions, h.blocks, h.graph, hf, hb,
      BlockScope.rename]

lemma Moved.addParameter (h : Moved μ a s) (name : String) (l : Location) :
    Together μ (Moved μ) (a.addParameter name l) (s.addParameter name (μ.place l)) := by
  have hdeclare := h.declare name l
  rw [Builder.addParameter, Builder.addParameter]
  revert hdeclare
  generalize a.declare name l = x, s.declare name (μ.place l) = y
  rintro (he | ⟨hb, -⟩)
  · exact .error he
  · refine .ok ?_
    simp [Moved, View.move, view, view_modifyTop, hb.functions, hb.blocks, hb.graph]

lemma Moved.addStatement (h : Moved μ a s) (t : Term) :
    Moved μ (a.addStatement t) (s.addStatement (t.rename μ.relabel)) := by
  simp [Moved, View.move, view, Builder.addStatement, h.functions, h.blocks, h.graph,
    BlockScope.append_rename]

lemma Moved.pushBlock (h : Moved μ a s) (inherits : Bool) :
    Moved μ (a.pushBlock inherits) (s.pushBlock inherits) := by
  simp [Moved, View.move, view, Builder.pushBlock, Pool.top?, h.functions, h.blocks, h.graph,
    BlockScope.reset, BlockScope.rename]

lemma Moved.pushFunction (h : Moved μ a s) : Moved μ a.pushFunction s.pushFunction := by
  simp [Moved, View.move, view, Builder.pushFunction, Pool.depth, h.functions, h.blocks, h.graph,
    BlockScope.reset, FunctionScope.reset, BlockScope.rename]

lemma Moved.popBlock (h : Moved μ a s) (l : Location) :
    Moved μ (a.popBlock l).1 (s.popBlock (μ.place l)).1 ∧
      (s.popBlock (μ.place l)).2 = (a.popBlock l).2.rename μ.relabel := by
  simp only [Builder.popBlock, Pool.top?, h.blocks, List.head?_map]
  rcases hb : a.blocks.live with _ | ⟨b, bs⟩
  · refine ⟨h, ?_⟩
    simp [Term.undefined, Term.rename, Transport.relabel, μ.location_some]
  · refine ⟨?_, BlockScope.value_rename (μ.location_some l) b⟩
    simp [Moved, View.move, view, view_modifyTop, h.functions, h.blocks, h.graph, hb,
      BlockScope.rename]

lemma size_addFunction_pos (g : Graph) (f : Function) : 0 < (addFunction g f).size := by
  simp [addFunction, Graph.size]

lemma Moved.popFunction (h : Moved μ a s) (l : Location) :
    Moved μ (a.popFunction l).1 (s.popFunction (μ.place l)).1 ∧
      (s.popFunction (μ.place l)).2 = (a.popFunction l).2.rename μ.relabel := by
  obtain ⟨hpop, hroot⟩ := h.popBlock l
  have hrefer (i : Nat) : Term.getFunction (μ.function i) (some (μ.place l)) =
      (Term.getFunction i (some l)).rename μ.relabel := by
    simp only [Term.rename, Transport.relabel, μ.location_some]
  simp only [Builder.popFunction, Pool.top?, Pool.depth, Pool.live_pop, hpop.functions, hroot,
    hpop.graph]
  rcases hf : (a.popBlock l).1.functions.live with _ | ⟨f, fs⟩
  · exact ⟨hpop, rfl⟩
  simp only [List.head?_cons, List.tail_cons]
  have hsize :=
    size_addFunction_pos (a.popBlock l).1.graph ⟨f.localCount, f.arity, (a.popBlock l).2⟩
  have hadd := μ.graph_addFunction (a.popBlock l).1.graph
    ⟨f.localCount, f.arity, (a.popBlock l).2⟩
  rw [Transport.relabel, ← hadd]
  by_cases houter : fs.length = 0
  · -- The outermost function becomes an entry point, and both graphs are pruned.
    simp only [houter, ↓reduceIte, ← μ.graph_addEntry _ hsize, μ.entry_graph]
    refine ⟨?_, hrefer _⟩
    simp [Moved, View.move, view, hpop.functions, hpop.blocks]
  · simp only [houter, ↓reduceIte, μ.last_graph _ hsize]
    refine ⟨?_, hrefer _⟩
    simp [Moved, View.move, view, hpop.functions, hpop.blocks]

end Builder

/-! ### Machines -/

namespace Machine

/-- Whether the second of two machines holds what the first one does, moved. -/
structure Moved (μ : Transport) (a s : Machine) : Prop where
  builder : Builder.Moved μ a.builder s.builder
  operands : s.operands = a.operands.map (Term.rename μ.relabel)

/-- What an instruction does to two machines in step: the same error, or both go on. -/
def MovedStep (μ : Transport) (x y : Machine × Except Error (Option Term)) : Prop :=
  Moved μ x.1 y.1 ∧ Builder.Together μ (fun t u => u = t.map (Term.rename μ.relabel)) x.2 y.2

variable {μ : Transport} {a s : Machine}

lemma Moved.yield (h : Moved μ a s) (t : Term) :
    MovedStep μ (a.yield t) (s.yield (t.rename μ.relabel)) :=
  ⟨⟨h.builder, by simp [Machine.yield, h.operands]⟩, .ok rfl⟩

lemma Moved.withBuilder {b c : Builder} (h : Moved μ a s) (hb : Builder.Moved μ b c) :
    Moved μ { a with builder := b } { s with builder := c } := ⟨hb, h.operands⟩

/-- Both machines keep in step with an assignment, whether it is refused or not. -/
lemma movedStep_assign {m m' k k' : Machine} (hm : Moved μ m m') (hk : Moved μ k k')
    (target value : Term) :
    MovedStep μ
      (match Builder.assign target value with
        | .ok t => m.yield t
        | .error e => (k, .error e))
      (match Builder.assign (target.rename μ.relabel) (value.rename μ.relabel) with
        | .ok t => m'.yield t
        | .error e => (k', .error e)) := by
  have hassign := Builder.assign_moved μ target value
  revert hassign
  generalize Builder.assign target value = x, Builder.assign (target.rename _) (value.rename _) = y
  rintro (he | rfl)
  · exact ⟨hk, .error he⟩
  · exact hm.yield _

/-- Both machines keep in step with every instruction. -/
theorem Moved.step (h : Moved μ a s) (i : Instruction) :
    MovedStep μ (a.step i) (s.step (i.move μ)) := by
  cases i with
  | pushFunction => exact ⟨h.withBuilder h.builder.pushFunction, .ok rfl⟩
  | popFunction l =>
    obtain ⟨hb, ht⟩ := h.builder.popFunction l
    simp only [Instruction.move, Machine.step, ht]
    exact (h.withBuilder hb).yield _
  | pushBlock inherits => exact ⟨h.withBuilder (h.builder.pushBlock inherits), .ok rfl⟩
  | popBlock l =>
    obtain ⟨hb, ht⟩ := h.builder.popBlock l
    simp only [Instruction.move, Machine.step, ht]
    exact (h.withBuilder hb).yield _
  | constant v l =>
    have hterm : Term.value v (some (μ.place l)) = (Term.value v (some l)).rename μ.relabel := by
      simp only [Term.rename, Transport.relabel, μ.location_some]
    simp only [Instruction.move, Machine.step, hterm]
    exact h.yield _
  | get name l =>
    simp only [Instruction.move, Machine.step, h.builder.get]
    exact h.yield _
  | declare name l =>
    have hdeclare := h.builder.declare name l
    simp only [Instruction.move, Machine.step]
    revert hdeclare
    generalize a.builder.declare name l = x, s.builder.declare name (μ.place l) = y
    rintro (he | ⟨hb, ht⟩)
    · exact ⟨h, .error he⟩
    · dsimp only
      rw [ht]
      exact (h.withBuilder hb).yield _
  | define name l =>
    have hdeclare := h.builder.declare name l
    simp only [Instruction.move, Machine.step, h.operands]
    revert hdeclare
    generalize a.builder.declare name l = x, s.builder.declare name (μ.place l) = y
    rcases hops : a.operands with _ | ⟨value, operands⟩
    · rintro (he | -)
      · exact ⟨h, .error he⟩
      · exact ⟨h, .ok rfl⟩
    · rintro (he | ⟨hb, ht⟩)
      · exact ⟨h, .error he⟩
      · simp only [List.map_cons, ht]
        apply movedStep_assign
        · exact ⟨hb, rfl⟩
        · exact ⟨h.builder, rfl⟩
  | parameter name l =>
    have hparameter := h.builder.addParameter name l
    simp only [Instruction.move, Machine.step]
    revert hparameter
    generalize a.builder.addParameter name l = x, s.builder.addParameter name (μ.place l) = y
    rintro (he | hb)
    · exact ⟨h, .error he⟩
    · exact ⟨h.withBuilder hb, .ok rfl⟩
  | assign =>
    simp only [Instruction.move, Machine.step, h.operands]
    rcases a.operands with _ | ⟨value, _ | ⟨target, operands⟩⟩
    · exact ⟨h, .ok rfl⟩
    · exact ⟨h, .ok rfl⟩
    · apply movedStep_assign
      · exact ⟨h.builder, rfl⟩
      · exact ⟨h.builder, rfl⟩
  | statement =>
    simp only [Instruction.move, Machine.step, h.operands]
    rcases a.operands with _ | ⟨t, ts⟩
    · exact ⟨h, .ok rfl⟩
    · exact ⟨⟨h.builder.addStatement t, rfl⟩, .ok rfl⟩
  | push t => exact h.yield t
  | duplicate =>
    simp only [Instruction.move, Machine.step, h.operands]
    rcases a.operands with _ | ⟨t, ts⟩
    · exact ⟨h, .ok rfl⟩
    · exact h.yield t
  | drop =>
    refine ⟨⟨h.builder, ?_⟩, .ok rfl⟩
    simp [Instruction.move, Machine.step, h.operands]

end Machine

end ScriptGraph
