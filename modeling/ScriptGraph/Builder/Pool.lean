/-!
# Pools

A stack of records that keeps those it pops and hands them out again, so that a long-lived stack
stops allocating once it has been as deep as it gets. Whoever pushes a record resets it.
-/

namespace ScriptGraph

/-- A stack of records, innermost first, and the popped ones, the last one first. -/
structure Pool (α : Type) where
  live : List α := []
  spare : List α := []

namespace Pool

variable {α : Type}

/-- The number of records on the stack. -/
def depth (p : Pool α) : Nat := p.live.length

/-- The innermost record. -/
def top? (p : Pool α) : Option α := p.live.head?

/-- The stack with one more record: a spare one if there is one, or else a new one, after a
reset. -/
def push [Inhabited α] (p : Pool α) (reset : α → α) : Pool α :=
  match p.spare with
  | [] => ⟨reset default :: p.live, []⟩
  | r :: spare => ⟨reset r :: p.live, spare⟩

/-- The stack without its innermost record. -/
def pop (p : Pool α) : Pool α :=
  match p.live with
  | [] => p
  | r :: live => ⟨live, r :: p.spare⟩

/-- The stack with its innermost record changed. -/
def modifyTop (p : Pool α) (f : α → α) : Pool α :=
  match p.live with
  | [] => p
  | r :: live => { p with live := f r :: live }

@[simp] theorem live_push [Inhabited α] (p : Pool α) (reset : α → α) :
    (p.push reset).live = reset (p.spare.headD default) :: p.live := by
  unfold push; split <;> simp_all

@[simp] theorem live_pop (p : Pool α) : p.pop.live = p.live.tail := by
  unfold pop; split <;> simp_all

end Pool

end ScriptGraph
