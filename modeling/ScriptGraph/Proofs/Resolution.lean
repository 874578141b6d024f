import Mathlib.Tactic.Lemma
import ScriptGraph.Proofs.Code

/-!
# Resolution

Names give way to the variables that they denote. A local variable is known by the number of its
declaration in the function and by the slot that holds it: the slots of a closed block are handed
out again, the numbers are not. A declaration with a value comes into force after the value, and
nothing of an enclosing function is visible inside a function. Resolution fails where a block
declares a name twice, and only there.
-/

namespace ScriptGraph

/-- A local variable of a function. -/
structure Local where
  /-- The slot that holds it. -/
  slot : Nat
  /-- The number of declarations of the function before its own. -/
  declaration : Nat
deriving DecidableEq

/-- What a name denotes. -/
inductive Variable where
  | bound (x : Local)
  | free (name : String)
deriving DecidableEq

/-- Code with its names resolved. -/
inductive Resolved where
  | constant (value : Literal) (location : Location)
  | read (x : Variable) (location : Location)
  | assign (target value : Resolved)
  | declare (x : Local) (location : Location)
  | define (x : Local) (location : Location) (value : Resolved)
  | scope (body : List Resolved) (location : Location)
  /-- A function literal: its source, the numbers of its parameters and slots, and its body. -/
  | function (source : Code) (arity count : Nat) (body : List Resolved) (location : Location)

/-! ### Frames -/

/-- What is known at a place in a function. -/
structure Frame where
  /-- The locals of the open blocks, innermost first. -/
  blocks : List (List (String × Local))
  /-- The next free slot. -/
  next : Nat
  /-- The largest number of slots in use at once so far. -/
  count : Nat
  /-- The number of declarations so far. -/
  declared : Nat

namespace Frame

/-- The start of a function. -/
def initial : Frame := ⟨[[]], 0, 0, 0⟩

/-- The visible local of a name. -/
def find? (f : Frame) (name : String) : Option Local := f.blocks.findSome? fun b => b.lookup name

/-- The variable that a name denotes. -/
def denote (f : Frame) (name : String) : Variable :=
  match f.find? name with
  | some x => .bound x
  | none => .free name

/-- The next local to be declared. -/
def fresh (f : Frame) : Local := ⟨f.next, f.declared⟩

/-- The frame after the declaration of a name in the innermost block. -/
def declare? (f : Frame) (name : String) : Option Frame :=
  match f.blocks with
  | [] => none
  | b :: outer =>
    if (b.lookup name).isSome then none
    else
      some ⟨((name, f.fresh) :: b) :: outer, f.next + 1, max f.count (f.next + 1), f.declared + 1⟩

/-- The frame inside a new block. -/
def enter (f : Frame) : Frame := { f with blocks := [] :: f.blocks }

/-- The frame after a block that was entered from `f` and ends in `inner`. -/
def leave (f inner : Frame) : Frame := { inner with blocks := f.blocks, next := f.next }

/-- The frame after the declaration of parameters. -/
def declareAll? (f : Frame) : List (String × Location) → Option Frame
  | [] => some f
  | p :: ps => (f.declare? p.1).bind fun f => f.declareAll? ps

end Frame

/-! ### Resolving code -/

namespace Code

mutual

/-- The code with its names resolved from a frame, and the frame after it. -/
def resolve? (f : Frame) : Code → Option (Frame × Resolved)
  | constant v l => some (f, .constant v l)
  | read n l => some (f, .read (f.denote n) l)
  | assign t v => do
    let (f, t) ← resolve? f t
    let (f, v) ← resolve? f v
    return (f, .assign t v)
  | declare n l => do
    let f' ← f.declare? n
    return (f', .declare f.fresh l)
  | define n l v => do
    let (f, v) ← resolve? f v
    let f' ← f.declare? n
    return (f', .define f.fresh l v)
  | scope body l => do
    let (inner, body) ← resolveAll? f.enter body
    return (f.leave inner, .scope body l)
  | function ps body l => do
    let start ← Frame.initial.declareAll? ps
    let (inner, rs) ← resolveAll? start body
    return (f, .function (.function ps body l) ps.length inner.count rs l)

/-- Statements with their names resolved, and the frame after them. -/
def resolveAll? (f : Frame) : List Code → Option (Frame × List Resolved)
  | [] => some (f, [])
  | c :: cs => do
    let (f, r) ← resolve? f c
    let (f, rs) ← resolveAll? f cs
    return (f, r :: rs)

end

variable {f f' : Frame} {l : Location} {n : String}

lemma resolve?_assign {t v : Code} {r : Resolved} :
    (assign t v).resolve? f = some (f', r) ↔
      ∃ f₁ t' v', t.resolve? f = some (f₁, t') ∧ v.resolve? f₁ = some (f', v') ∧
        r = .assign t' v' := by
  simp only [resolve?, Option.bind_eq_bind, Option.bind_eq_some_iff, Prod.exists, Option.pure_def,
    Option.some.injEq, Prod.mk.injEq]
  constructor
  · rintro ⟨f₁, t', ht, f₂, v', hv, rfl, rfl⟩
    exact ⟨f₁, t', v', ht, hv, rfl⟩
  · rintro ⟨f₁, t', v', ht, hv, rfl⟩
    exact ⟨f₁, t', ht, f', v', hv, rfl, rfl⟩

lemma resolve?_declare {r : Resolved} :
    (declare n l).resolve? f = some (f', r) ↔
      f.declare? n = some f' ∧ r = .declare f.fresh l := by
  simp only [resolve?, Option.bind_eq_bind, Option.bind_eq_some_iff, Option.pure_def,
    Option.some.injEq, Prod.mk.injEq]
  constructor
  · rintro ⟨_, h, rfl, rfl⟩
    exact ⟨h, rfl⟩
  · rintro ⟨h, rfl⟩
    exact ⟨f', h, rfl, rfl⟩

lemma resolve?_define {v : Code} {r : Resolved} :
    (define n l v).resolve? f = some (f', r) ↔
      ∃ f₁ v', v.resolve? f = some (f₁, v') ∧ f₁.declare? n = some f' ∧
        r = .define f₁.fresh l v' := by
  simp only [resolve?, Option.bind_eq_bind, Option.bind_eq_some_iff, Prod.exists, Option.pure_def,
    Option.some.injEq, Prod.mk.injEq]
  constructor
  · rintro ⟨f₁, v', hv, _, h, rfl, rfl⟩
    exact ⟨f₁, v', hv, h, rfl⟩
  · rintro ⟨f₁, v', hv, h, rfl⟩
    exact ⟨f₁, v', hv, f', h, rfl, rfl⟩

lemma resolve?_scope {body : List Code} {r : Resolved} :
    (scope body l).resolve? f = some (f', r) ↔
      ∃ inner rs, resolveAll? f.enter body = some (inner, rs) ∧ f' = f.leave inner ∧
        r = .scope rs l := by
  simp only [resolve?, Option.bind_eq_bind, Option.bind_eq_some_iff, Prod.exists, Option.pure_def,
    Option.some.injEq, Prod.mk.injEq]
  constructor
  · rintro ⟨inner, rs, h, rfl, rfl⟩
    exact ⟨inner, rs, h, rfl, rfl⟩
  · rintro ⟨inner, rs, h, rfl, rfl⟩
    exact ⟨inner, rs, h, rfl, rfl⟩

lemma resolve?_function {ps : List (String × Location)} {body : List Code} {r : Resolved} :
    (function ps body l).resolve? f = some (f', r) ↔
      ∃ start inner rs, Frame.initial.declareAll? ps = some start ∧
        resolveAll? start body = some (inner, rs) ∧ f' = f ∧
        r = .function (.function ps body l) ps.length inner.count rs l := by
  simp only [resolve?, Option.bind_eq_bind, Option.bind_eq_some_iff, Prod.exists, Option.pure_def,
    Option.some.injEq, Prod.mk.injEq]
  constructor
  · rintro ⟨start, hs, inner, rs, h, rfl, rfl⟩
    exact ⟨start, inner, rs, hs, h, rfl, rfl⟩
  · rintro ⟨start, inner, rs, hs, h, rfl, rfl⟩
    exact ⟨start, hs, inner, rs, h, rfl, rfl⟩

lemma resolveAll?_cons {c : Code} {cs : List Code} {rs : List Resolved} :
    resolveAll? f (c :: cs) = some (f', rs) ↔
      ∃ f₁ r rs', c.resolve? f = some (f₁, r) ∧ resolveAll? f₁ cs = some (f', rs') ∧
        rs = r :: rs' := by
  simp only [resolveAll?, Option.bind_eq_bind, Option.bind_eq_some_iff, Prod.exists,
    Option.pure_def, Option.some.injEq, Prod.mk.injEq]
  constructor
  · rintro ⟨f₁, r, hc, f₂, rs', hcs, rfl, rfl⟩
    exact ⟨f₁, r, rs', hc, hcs, rfl⟩
  · rintro ⟨f₁, r, rs', hc, hcs, rfl⟩
    exact ⟨f₁, r, hc, f', rs', hcs, rfl, rfl⟩

lemma resolveAll?_concat {cs : List Code} {c : Code} {rs : List Resolved} :
    resolveAll? f (cs ++ [c]) = some (f', rs) ↔
      ∃ f₁ rs₁ r, resolveAll? f cs = some (f₁, rs₁) ∧ c.resolve? f₁ = some (f', r) ∧
        rs = rs₁ ++ [r] := by
  induction cs generalizing f rs with
  | nil =>
    rw [List.nil_append, resolveAll?_cons]
    constructor
    · rintro ⟨f₁, r, rs', hr, hnil, rfl⟩
      cases hnil
      exact ⟨f, [], r, rfl, hr, rfl⟩
    · rintro ⟨f₁, rs₁, r, hnil, hr, rfl⟩
      cases hnil
      exact ⟨f', r, [], hr, rfl, rfl⟩
  | cons c' cs ih =>
    simp only [List.cons_append, resolveAll?_cons, ih]
    constructor
    · rintro ⟨f₁, r', _, hr', ⟨f₂, rs₁, r, hrs₁, hr, rfl⟩, rfl⟩
      exact ⟨f₂, r' :: rs₁, r, ⟨f₁, r', rs₁, hr', hrs₁, rfl⟩, hr, rfl⟩
    · rintro ⟨f₂, _, r, ⟨f₁, r', rs₁, hr', hrs₁, rfl⟩, hr, rfl⟩
      exact ⟨f₁, r', rs₁ ++ [r], hr', ⟨f₂, rs₁, r, hrs₁, hr, rfl⟩, rfl⟩

end Code

end ScriptGraph
