import Mathlib.Logic.Function.Basic
import Mathlib.Tactic.Lemma
import ScriptGraph.Proofs.References
import ScriptGraph.Proofs.Resolution

/-!
# Evaluation

Terms are evaluated over a store of local slots and globals. Resolved code is executed statement by
statement over such a store too, and where it keeps its locals is a parameter: by slot, as the terms
do, or by declaration, so that no two variables share a place.
-/

namespace ScriptGraph

/-- A value of the language. A function value is the literal that it comes from. -/
inductive Value where
  | literal (v : Literal)
  | function (source : Code)

/-- The undefined value. -/
def Value.undefined : Value := .literal .undefined

/-- The contents of local places and of globals. -/
@[ext] structure Store (V : Type) where
  locals : Nat → V
  globals : String → V

namespace Store

variable {V : Type}

/-- The store after a write to a local place. -/
def setLocal (s : Store V) (i : Nat) (a : V) : Store V :=
  { s with locals := Function.update s.locals i a }

/-- The store after a write to a global. -/
def setGlobal (s : Store V) (n : String) (a : V) : Store V :=
  { s with globals := Function.update s.globals n a }

@[simp] lemma setLocal_self (s : Store V) (i : Nat) : s.setLocal i (s.locals i) = s := by
  simp [setLocal]

@[simp] lemma setGlobal_self (s : Store V) (n : String) : s.setGlobal n (s.globals n) = s := by
  simp [setGlobal]

end Store

/-! ### Terms -/

namespace Term

variable (den : Nat → Value)

mutual

/-- The store after a term and the value that the term yields. Functions are given by `den`. -/
def eval : Term → Store Value → Store Value × Value
  | value v _, s => (s, .literal v)
  | block ts _, s => evalAll ts s
  | getLocal i _, s => (s, s.locals i)
  | setLocal i v _, s => ((eval v s).1.setLocal i (eval v s).2, (eval v s).2)
  | getGlobal n _, s => (s, s.globals n)
  | setGlobal n v _, s => ((eval v s).1.setGlobal n (eval v s).2, (eval v s).2)
  | getFunction i _, s => (s, den i)

/-- The store after terms in order and the value of the last, which is undefined if there is
none. -/
def evalAll : List Term → Store Value → Store Value × Value
  | [], s => (s, .undefined)
  | [t], s => eval t s
  | t :: u :: ts, s => evalAll (u :: ts) (eval t s).1

end

/-- The store after terms in order. -/
def run (ts : List Term) (s : Store Value) : Store Value := ts.foldl (fun s t => (t.eval den s).1) s

variable {den}

@[simp] lemma run_nil (s : Store Value) : run den [] s = s := rfl

@[simp] lemma run_cons (t : Term) (ts : List Term) (s : Store Value) :
    run den (t :: ts) s = run den ts (t.eval den s).1 := rfl

lemma run_append (ts us : List Term) (s : Store Value) :
    run den (ts ++ us) s = run den us (run den ts s) := by
  simp [run]

lemma evalAll_cons_of_ne_nil (t : Term) {ts : List Term} (hts : ts ≠ []) (s : Store Value) :
    evalAll den (t :: ts) s = evalAll den ts (t.eval den s).1 := by
  cases ts with
  | nil => exact absurd rfl hts
  | cons u ts => rfl

/-- Terms before others are run only. -/
lemma evalAll_append_cons (ts us : List Term) (t : Term) (s : Store Value) :
    evalAll den (ts ++ t :: us) s = evalAll den (t :: us) (run den ts s) := by
  induction ts generalizing s with
  | nil => rfl
  | cons u ts ih =>
    cases ts with
    | nil => rfl
    | cons v ts => exact ih _

lemma eval_of_isPure {t : Term} (h : t.isPure = true) (s : Store Value) : (t.eval den s).1 = s := by
  cases t with
  | value | getLocal | getGlobal | getFunction => rfl
  | block | setLocal | setGlobal => cases h

/-- Terms without an effect can be left out of a run. -/
lemma run_filter (ts : List Term) (s : Store Value) :
    run den (ts.filter fun t => !t.isPure) s = run den ts s := by
  induction ts generalizing s with
  | nil => rfl
  | cons t ts ih =>
    cases h : t.isPure with
    | true => simp [h, ih, eval_of_isPure h]
    | false => simp [h, ih]

mutual

/-- The value of a term depends on the functions that it refers to only. -/
theorem eval_congr {den den' : Nat → Value} (t : Term) (h : ∀ i ∈ t.callees, den i = den' i)
    (s : Store Value) : t.eval den s = t.eval den' s := by
  match t with
  | value v l | getLocal i l | getGlobal n l => rfl
  | getFunction i l =>
    simp only [eval]
    rw [h i (by simp)]
  | setLocal i v l | setGlobal n v l =>
    simp only [eval]
    rw [eval_congr v h]
  | block ts l =>
    simp only [eval]
    exact evalAll_congr ts (by simpa using h) s

theorem evalAll_congr {den den' : Nat → Value} (ts : List Term)
    (h : ∀ i ∈ ts.flatMap callees, den i = den' i) (s : Store Value) :
    evalAll den ts s = evalAll den' ts s := by
  match ts with
  | [] => rfl
  | [t] =>
    exact eval_congr t (by simpa using h) s
  | t :: u :: ts =>
    have ht : ∀ i ∈ t.callees, den i = den' i := by
      intro i hi
      exact h i (List.mem_append_left _ hi)
    have hts : ∀ i ∈ (u :: ts).flatMap callees, den i = den' i := by
      intro i hi
      exact h i (List.mem_append_right _ hi)
    simp only [evalAll]
    rw [eval_congr t ht, evalAll_congr (u :: ts) hts]

end

mutual

/-- A renamed term has the value of the term for the renamed functions. -/
theorem eval_rename (ρ : Nat → Nat) (t : Term) (s : Store Value) :
    (t.rename { function := ρ }).eval den s = t.eval (den ∘ ρ) s := by
  match t with
  | value v l | getLocal i l | getGlobal n l | getFunction i l => rfl
  | setLocal i v l | setGlobal n v l =>
    simp only [rename, eval, id]
    rw [eval_rename ρ v]
  | block ts l =>
    simp only [rename, renameAll_eq_map, eval]
    exact evalAll_rename ρ ts s

theorem evalAll_rename (ρ : Nat → Nat) (ts : List Term) (s : Store Value) :
    evalAll den (ts.map (rename { function := ρ })) s = evalAll (den ∘ ρ) ts s := by
  match ts with
  | [] => rfl
  | [t] => exact eval_rename ρ t s
  | t :: u :: ts =>
    simp only [List.map_cons, evalAll]
    rw [eval_rename ρ t, ← List.map_cons, evalAll_rename ρ (u :: ts)]

end

end Term

/-! ### Code -/

/-- How code keeps its locals. -/
structure Discipline (V : Type) where
  /-- What stands for an ordinary value. -/
  value : Value → V
  /-- The place of a local. -/
  place : Local → Nat
  /-- What a declaration without a value makes of the content of its place. -/
  fresh : V → V

namespace Discipline

/-- Locals share slots, and a declaration alone does nothing. -/
def bySlot : Discipline Value where
  value := id
  place := Local.slot
  fresh := id

/-- Every local has a place of its own, which is undefined to begin with. -/
def byVariable : Discipline Value where
  value := id
  place := Local.declaration
  fresh _ := .undefined

variable {V : Type} (d : Discipline V)

/-- The content of a variable. -/
def read (s : Store V) : Variable → V
  | .bound x => s.locals (d.place x)
  | .free n => s.globals n

/-- The store after a write to a variable. -/
def write (s : Store V) (a : V) : Variable → Store V
  | .bound x => s.setLocal (d.place x) a
  | .free n => s.setGlobal n a

end Discipline

/-- Whether two variables have the same slot or are the same global. -/
def Variable.isSame : Variable → Variable → Bool
  | bound x, bound y => x.slot == y.slot
  | free m, free n => m == n
  | _, _ => false

namespace Resolved

mutual

/-- The variable whose content some code yields. -/
def denotes? : Resolved → Option Variable
  | read x _ => some x
  | declare x _ => some (.bound x)
  | scope body _ => denotesLast? body
  | _ => none

/-- The variable whose content the last of some statements yields. -/
def denotesLast? : List Resolved → Option Variable
  | [] => none
  | [r] => denotes? r
  | _ :: r :: rs => denotesLast? (r :: rs)

end

lemma denotesLast?_concat (rs : List Resolved) (r : Resolved) :
    denotesLast? (rs ++ [r]) = r.denotes? := by
  induction rs with
  | nil => rfl
  | cons r' rs ih =>
    cases rs with
    | nil => rfl
    | cons r'' rs => exact ih

variable {V : Type} (d : Discipline V)

/-- The store after the assignment of a value to a variable, and what the assignment yields: the
value, or undefined if the value is the content of the same variable. -/
def store (x : Variable) (source? : Option Variable) (a : V) (s : Store V) : Store V × V :=
  (d.write s a x, if source?.any x.isSame then d.value .undefined else a)

mutual

/-- The store after some code and the value that the code yields. -/
def exec : Resolved → Store V → Store V × V
  | constant v _, s => (s, d.value (.literal v))
  | read x _, s => (s, d.read s x)
  | assign t v, s =>
    -- The target yields nothing here, but the statements before its last have to be run.
    let (s', a) := exec v (exec t s).1
    match t.denotes? with
    | some x => store d x v.denotes? a s'
    | none => (s', a)
  | declare x _, s =>
    let s' := s.setLocal (d.place x) (d.fresh (s.locals (d.place x)))
    (s', s'.locals (d.place x))
  | define x _ v, s =>
    let (s', a) := exec v s
    store d (.bound x) v.denotes? a s'
  | scope body _, s => execAll body s
  | function source _ _ _ _, s => (s, d.value (.function source))

/-- The store after statements in order and the value of the last, which is undefined if there is
none. -/
def execAll : List Resolved → Store V → Store V × V
  | [], s => (s, d.value .undefined)
  | [r], s => exec r s
  | r :: r' :: rs, s => execAll (r' :: rs) (exec r s).1

end

end Resolved

end ScriptGraph
