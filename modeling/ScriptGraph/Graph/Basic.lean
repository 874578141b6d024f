import ScriptGraph.Term

/-!
# Syntax graphs

A graph is a list of functions, each with a tree of terms. Functions refer to each other by their
index. The entry points are the functions that stand for whole source units.
-/

namespace ScriptGraph

/-- A function of a graph. The parameters take the first slots. -/
structure Function where
  localCount : Nat
  arity : Nat
  root : Term

/-- A syntax graph. -/
structure Graph where
  functions : List Function := []
  entryPoints : List Nat := []

instance : Inhabited Graph := ⟨{}⟩

namespace Graph

/-- Equality of graphs, with numbers compared as numbers. -/
def equal (a b : Graph) : Bool :=
  let same (f g : Function) :=
    f.localCount == g.localCount && f.arity == g.arity && f.root.equal g.root
  a.functions.length == b.functions.length
    && (a.functions.zip b.functions).all (fun (f, g) => same f g)
    && a.entryPoints == b.entryPoints

/-- The number of functions. -/
def size (g : Graph) : Nat := g.functions.length

/-- The functions that the function at an index refers to. -/
def callees (g : Graph) (i : Nat) : List Nat :=
  match g.functions[i]? with
  | some f => f.root.callees
  | none => []

/-- The graph with its terms and entry points renamed. -/
def rename (g : Graph) (r : Term.Renaming) : Graph :=
  { functions := g.functions.map fun f => { f with root := f.root.rename r }
    entryPoints := g.entryPoints.map r.function }

/-- The first index, among the entry points and then among the references in order, that denotes no
function of the graph. -/
def dangling? (g : Graph) : Option Nat :=
  (g.entryPoints ++ g.functions.flatMap fun f => f.root.callees).find? fun i => g.size ≤ i

/-- The graph without locations, with a number added to every slot as a 32-bit word. -/
def shift (g : Graph) (n : Nat) : Graph :=
  g.rename { slot := fun i => (i + n) % 0x100000000, location := fun _ => none }

end Graph

end ScriptGraph
