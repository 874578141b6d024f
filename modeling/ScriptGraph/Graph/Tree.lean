import ScriptGraph.Graph.Basic
import ScriptGraph.Text.Colour

/-!
# Graphs as trees of lines

Every node of a tree takes one line; guides to its left show which node it hangs on. With colours
the kind of each node and each guide is marked.
-/

namespace ScriptGraph

/-- A tree to show: each node has a kind and some data. -/
inductive Tree where
  | node (kind : String) (data : List String) (children : List Tree)

namespace Tree

mutual

/-- The lines of a tree. `lead` stands before the node's own line, `guide` before the lines beneath
it. -/
def lines (coloured : Bool) (lead guide : String) : Tree → List String
  | node kind data children =>
    let detail := if data.isEmpty then "" else "(" ++ ", ".intercalate data ++ ")"
    (lead ++ Colour.green.paint coloured kind ++ detail) :: linesAll coloured guide children

/-- The lines of the children of a node. -/
def linesAll (coloured : Bool) (guide : String) : List Tree → List String
  | [] => []
  | t :: ts =>
    let mark (s : String) := guide ++ Colour.dimmed.paint coloured s
    match ts with
    | [] => lines coloured (mark "╰─") (mark "  ") t
    | _ => lines coloured (mark "├─") (mark "│ ") t ++ linesAll coloured guide ts

end

/-- The text of a tree. -/
def render (coloured : Bool) (t : Tree) : String :=
  String.join ((t.lines coloured "" "").map (· ++ "\n"))

end Tree

mutual

/-- The tree of a term. -/
def Term.tree : Term → Tree
  | .value v _ => .node "Value" [v.render] []
  | .block ts _ => .node "Block" [] (Term.trees ts)
  | .getLocal i _ => .node "GetLocal" [toString i] []
  | .setLocal i v _ => .node "SetLocal" [toString i] [v.tree]
  | .getGlobal n _ => .node "GetGlobal" [n] []
  | .setGlobal n v _ => .node "SetGlobal" [n] [v.tree]
  | .getFunction i _ => .node "GetFunction" [toString i] []

/-- The trees of a list of terms. -/
def Term.trees : List Term → List Tree
  | [] => []
  | t :: ts => t.tree :: Term.trees ts

end

/-- The tree of a function at an index. -/
def Function.tree (f : Function) (index : Nat) (isEntry : Bool) : Tree :=
  let arity := if f.arity = 0 then "" else s!", arity: {f.arity}"
  let entry := if isEntry then ", entry" else ""
  .node "Function" [toString index, s!"locals: {f.localCount}" ++ arity ++ entry] [f.root.tree]

namespace Graph

/-- The tree of a graph. -/
def tree (g : Graph) : Tree :=
  .node "Graph" [] (g.functions.zipIdx.map fun (f, i) => f.tree i (g.entryPoints.contains i))

/-- The text of a graph. -/
def display (g : Graph) (coloured : Bool) : String := g.tree.render coloured

end Graph

end ScriptGraph
