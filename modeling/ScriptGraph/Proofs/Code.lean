import ScriptGraph.Builder.Machine

/-!
# Code

What is left of a source text once its punctuation is gone: constants, names, assignments,
declarations and blocks, each with the place that it came from. Building a graph from code is
issuing its instructions; which instructions these are depends on the code alone.
-/

namespace ScriptGraph

/-- An expression or a statement of the language. -/
inductive Code where
  /-- A number or a string. -/
  | constant (value : Literal) (location : Location)
  /-- A name. -/
  | read (name : String) (location : Location)
  /-- `target = value`. -/
  | assign (target value : Code)
  /-- `let name`. -/
  | declare (name : String) (location : Location)
  /-- `let name = value`. -/
  | define (name : String) (location : Location) (value : Code)
  /-- `do { body }`. -/
  | scope (body : List Code) (location : Location)
  /-- `fun (parameters) { body }`. -/
  | function (parameters : List (String × Location)) (body : List Code) (location : Location)
deriving Inhabited

namespace Code

mutual

/-- The instructions that build the term of some code. -/
def instructions : Code → List Instruction
  | constant v l => [.constant v l]
  | read n l => [.get n l]
  | assign t v => instructions t ++ instructions v ++ [.assign]
  | declare n l => [.declare n l]
  | define n l v => instructions v ++ [.define n l]
  | scope body l => .pushBlock true :: instructionsAll body ++ [.popBlock l]
  | function ps body l =>
    .pushFunction :: ps.map (fun p => .parameter p.1 p.2) ++ instructionsAll body ++
      [.popFunction l]

/-- The instructions that build the statements of a block. -/
def instructionsAll : List Code → List Instruction
  | [] => []
  | c :: cs => instructions c ++ .statement :: instructionsAll cs

end

/-- The code of a unit: a function without parameters. -/
def unit (body : List Code) : Code := function [] body .beginning

/-- The names that some code declares in the block where it stands, in order. The grammar has
declarations among the statements of a block only. -/
def declares : Code → List String
  | declare n _ => [n]
  | define n _ v => declares v ++ [n]
  | assign t v => declares t ++ declares v
  | _ => []

/-- The names that the statements of a block declare, in order. -/
def declaredNames (body : List Code) : List String := body.flatMap declares

@[simp] theorem declaredNames_cons (c : Code) (cs : List Code) :
    declaredNames (c :: cs) = c.declares ++ declaredNames cs := rfl

mutual

/-- Whether no block of some code declares a name twice. The parameters of a function count as
declared in its body. -/
def Distinct : Code → Prop
  | constant .. | read .. | declare .. => True
  | assign t v => Distinct t ∧ Distinct v
  | define _ _ v => Distinct v
  | scope body _ => (declaredNames body).Nodup ∧ DistinctAll body
  | function ps body _ => (ps.map Prod.fst ++ declaredNames body).Nodup ∧ DistinctAll body

/-- Whether no block inside some statements declares a name twice. -/
def DistinctAll : List Code → Prop
  | [] => True
  | c :: cs => Distinct c ∧ DistinctAll cs

end

mutual

/-- Whether some code can stand on the left of an assignment: a name, or a block that ends in such
code or in a declaration without a value. The grammar has declarations in blocks only. -/
def IsTarget : Code → Prop
  | read .. | declare .. => True
  | scope body _ => EndsInTarget body
  | _ => False

/-- Whether the last statement of a block can stand on the left of an assignment. -/
def EndsInTarget : List Code → Prop
  | [] => False
  | [c] => IsTarget c
  | _ :: c :: cs => EndsInTarget (c :: cs)

end

mutual

/-- Whether every assignment inside some code has a target that can be assigned to. -/
def Assignable : Code → Prop
  | constant .. | read .. | declare .. => True
  | assign t v => IsTarget t ∧ Assignable t ∧ Assignable v
  | define _ _ v => Assignable v
  | scope body _ | function _ body _ => AssignableAll body

/-- Whether every assignment inside some statements has a target that can be assigned to. -/
def AssignableAll : List Code → Prop
  | [] => True
  | c :: cs => Assignable c ∧ AssignableAll cs

end

mutual

/-- Whether declarations stand among the statements of blocks only, as in all code of the
grammar. -/
def Tidy : Code → Prop
  | constant .. | read .. | declare .. => True
  | assign t v => t.declares = [] ∧ v.declares = [] ∧ Tidy t ∧ Tidy v
  | define _ _ v => v.declares = [] ∧ Tidy v
  | scope body _ | function _ body _ => TidyAll body

/-- Whether declarations stand among some statements and those of the blocks in them only. -/
def TidyAll : List Code → Prop
  | [] => True
  | c :: cs => Tidy c ∧ TidyAll cs

end

theorem tidyAll_append {cs ds : List Code} :
    TidyAll (cs ++ ds) ↔ TidyAll cs ∧ TidyAll ds := by
  induction cs with
  | nil => simp [TidyAll]
  | cons c cs ih => simp [TidyAll, ih, and_assoc]

/-! ### Function literals -/

mutual

/-- The function literals in some code, each after those inside it. -/
def literals : Code → List Code
  | constant .. | read .. | declare .. => []
  | assign t v => literals t ++ literals v
  | define _ _ v => literals v
  | scope body _ => literalsAll body
  | function ps body l => literalsAll body ++ [function ps body l]

/-- The function literals in some statements. -/
def literalsAll : List Code → List Code
  | [] => []
  | c :: cs => literals c ++ literalsAll cs

end

mutual

/-- The function literals of tidy code are tidy. -/
theorem tidy_of_mem_literals (c : Code) (h : c.Tidy) : ∀ p ∈ c.literals, p.Tidy := by
  match c with
  | constant .. | read .. | declare .. =>
    intro p hp
    cases hp
  | assign t v =>
    intro p hp
    rcases List.mem_append.1 hp with hp | hp
    · exact tidy_of_mem_literals t h.2.2.1 p hp
    · exact tidy_of_mem_literals v h.2.2.2 p hp
  | define n l v => exact tidy_of_mem_literals v h.2
  | scope body l => exact tidy_of_mem_literalsAll body h
  | function ps body l =>
    intro p hp
    rcases List.mem_append.1 hp with hp | hp
    · exact tidy_of_mem_literalsAll body h p hp
    · rw [List.mem_singleton.1 hp]
      exact h

theorem tidy_of_mem_literalsAll (cs : List Code) (h : TidyAll cs) :
    ∀ p ∈ literalsAll cs, p.Tidy := by
  match cs with
  | [] =>
    intro p hp
    cases hp
  | c :: cs =>
    intro p hp
    rcases List.mem_append.1 hp with hp | hp
    · exact tidy_of_mem_literals c h.1 p hp
    · exact tidy_of_mem_literalsAll cs h.2 p hp

end

end Code

end ScriptGraph
