import ScriptGraph.Graph.Basic

/-!
# Reachable functions

A function is reachable if it is an entry point or a reachable function refers to it. Pruning a
graph keeps the reachable functions in their order and renumbers every reference to them; references
that denote no function are left as they are.
-/

namespace ScriptGraph.Graph

/-- Visits the functions in `work` and all that they lead to, and returns the functions that are
left unvisited. -/
def unvisited (g : Graph) (left work : List Nat) : List Nat :=
  match work with
  | [] => left
  | i :: work =>
    if i ∈ left then unvisited g (left.erase i) (g.callees i ++ work) else unvisited g left work
termination_by (left.length, work.length)
decreasing_by
  · next h => exact Prod.Lex.left _ _ (by
      rw [List.length_erase_of_mem h]
      exact Nat.sub_lt (List.length_pos_of_mem h) Nat.one_pos)
  · exact Prod.Lex.right _ (Nat.lt_succ_self _)

/-- The functions that no entry point leads to. -/
def unreachable (g : Graph) : List Nat := g.unvisited (List.range g.size) g.entryPoints

/-- The new index of a function, if the functions in `dropped` go: those before it no longer count.
Only an index of a function changes. -/
def renumber (g : Graph) (dropped : List Nat) (i : Nat) : Nat :=
  if i < g.size then i - dropped.countP (· < i) else i

/-- The graph without the functions that no entry point leads to. -/
def prune (g : Graph) : Graph :=
  let dropped := g.unreachable
  let kept := (g.functions.zipIdx.filter fun (_, i) => i ∉ dropped).map Prod.fst
  { g with functions := kept }.rename { function := g.renumber dropped }

end ScriptGraph.Graph
