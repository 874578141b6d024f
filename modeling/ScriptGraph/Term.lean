import ScriptGraph.Literal
import ScriptGraph.Location

/-!
# Terms

The nodes of a syntax graph. Local variables are slots, so that no name is left to look up but those
of globals; functions are referred to by their index in the graph.
-/

namespace ScriptGraph

/-- A node of a syntax graph, with the place that it came from, if known. -/
inductive Term where
  /-- A constant. -/
  | value (literal : Literal) (location : Option Location)
  /-- Terms in order; its value is that of the last. -/
  | block (terms : List Term) (location : Option Location)
  /-- Reads a local slot. -/
  | getLocal (index : Nat) (location : Option Location)
  /-- Writes a local slot. -/
  | setLocal (index : Nat) (value : Term) (location : Option Location)
  /-- Reads a global. -/
  | getGlobal (name : String) (location : Option Location)
  /-- Writes a global. -/
  | setGlobal (name : String) (value : Term) (location : Option Location)
  /-- Refers to a function of the graph. -/
  | getFunction (index : Nat) (location : Option Location)
deriving Inhabited

namespace Term

/-- The place that a term came from. -/
def location : Term → Option Location
  | value _ l | block _ l | getLocal _ l | setLocal _ _ l | getGlobal _ l | setGlobal _ _ l
  | getFunction _ l => l

/-- The term for the undefined value. -/
def undefined (location : Option Location) : Term := value .undefined location

/-- Whether evaluating the term does nothing but yield a value. -/
def isPure : Term → Bool
  | value .. | getLocal .. | getGlobal .. | getFunction .. => true
  | block .. | setLocal .. | setGlobal .. => false

/-- Whether both terms read the same variable. -/
def isSameVariable : Term → Term → Bool
  | getLocal a _, getLocal b _ => a == b
  | getGlobal a _, getGlobal b _ => a == b
  | _, _ => false

/-- The write of a value to the variable that a term reads, unless it reads none. -/
def promote? (target value : Term) : Option Term :=
  match target with
  | getLocal i l => some (setLocal i value l)
  | getGlobal n l => some (setGlobal n value l)
  | _ => none

/-! ### Traversal -/

mutual

/-- A term and the terms beneath it, each before those beneath it. -/
def subterms : Term → List Term
  | block ts l => block ts l :: subtermsAll ts
  | setLocal i v l => setLocal i v l :: subterms v
  | setGlobal n v l => setGlobal n v l :: subterms v
  | t => [t]

/-- The terms of a list and the terms beneath them. -/
def subtermsAll : List Term → List Term
  | [] => []
  | t :: ts => subterms t ++ subtermsAll ts

end

/-- The functions that a term refers to, in order. -/
def callees (t : Term) : List Nat :=
  t.subterms.filterMap fun
    | getFunction i _ => some i
    | _ => none

/-- A change to the indices and locations of a term that keeps its shape. -/
structure Renaming where
  slot : Nat → Nat := id
  function : Nat → Nat := id
  location : Option Location → Option Location := id

mutual

/-- The term with its indices and locations changed. -/
def rename (r : Renaming) : Term → Term
  | value v l => value v (r.location l)
  | block ts l => block (renameAll r ts) (r.location l)
  | getLocal i l => getLocal (r.slot i) (r.location l)
  | setLocal i v l => setLocal (r.slot i) (rename r v) (r.location l)
  | getGlobal n l => getGlobal n (r.location l)
  | setGlobal n v l => setGlobal n (rename r v) (r.location l)
  | getFunction i l => getFunction (r.function i) (r.location l)

/-- The terms of a list with their indices and locations changed. -/
def renameAll (r : Renaming) : List Term → List Term
  | [] => []
  | t :: ts => rename r t :: renameAll r ts

end

/-! ### Equality -/

mutual

/-- Equality of terms, locations included, with numbers compared as numbers. -/
def equal : Term → Term → Bool
  | value a l, value b k => a == b && l == k
  | block as l, block bs k => equalAll as bs && l == k
  | getLocal i l, getLocal j k => i == j && l == k
  | setLocal i a l, setLocal j b k => i == j && equal a b && l == k
  | getGlobal m l, getGlobal n k => m == n && l == k
  | setGlobal m a l, setGlobal n b k => m == n && equal a b && l == k
  | getFunction i l, getFunction j k => i == j && l == k
  | _, _ => false

/-- Equality of lists of terms. -/
def equalAll : List Term → List Term → Bool
  | [], [] => true
  | a :: as, b :: bs => equal a b && equalAll as bs
  | _, _ => false

end

/-- One line on what a term is, without what is beneath it. -/
def summary : Term → String
  | value v _ => "value " ++ v.render
  | block ts _ => s!"block {ts.length}"
  | getLocal i _ => s!"get_local {i}"
  | setLocal i _ _ => s!"set_local {i}"
  | getGlobal n _ => "get_global " ++ n
  | setGlobal n _ _ => "set_global " ++ n
  | getFunction i _ => s!"get_function {i}"

/-- Renaming a list is renaming each term of it. -/
@[simp] theorem renameAll_eq_map (r : Renaming) (ts : List Term) :
    renameAll r ts = ts.map (rename r) := by
  induction ts with
  | nil => rfl
  | cons t ts ih => simp [renameAll, ih]

/-- The subterms of a list are those of each term of it. -/
@[simp] theorem subtermsAll_eq_flatMap (ts : List Term) : subtermsAll ts = ts.flatMap subterms := by
  induction ts with
  | nil => rfl
  | cons t ts ih => simp [subtermsAll, ih]

/-- The terms directly beneath a term. -/
def children : Term → List Term
  | block ts _ => ts
  | setLocal _ v _ | setGlobal _ v _ => [v]
  | _ => []

theorem subterms_eq (t : Term) : t.subterms = t :: t.children.flatMap subterms := by
  cases t <;> simp [subterms, children]

end Term

end ScriptGraph
