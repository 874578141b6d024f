import ScriptGraph.Proofs.References

/-!
# What becomes of a graph in a document

The numbers of a graph are all that can change when it is written and read again: one that is not
finite is written as null and comes back as the undefined value. A reloaded graph refers to the same
functions as the graph, and it is the graph if and only if its numbers are all finite.
-/

namespace ScriptGraph

/-! ### Literals -/

lemma Number.equal_self {x : Number} (h : x.isFinite = true) : x.equal x = true := by
  cases x with
  | nan => simp [isFinite] at h
  | ranked negative r => simp [equal]

namespace Literal

/-- The number that a literal is, if it is one. -/
def number? : Literal → Option Number
  | number x => some x
  | _ => none

/-- What a literal becomes when it is written and read again. -/
def reloaded : Literal → Literal
  | number x => if x.isFinite then number x else undefined
  | v => v

lemma reloaded_eq_self_iff (v : Literal) :
    v.reloaded = v ↔ ∀ x ∈ v.number?, x.isFinite = true := by
  cases v with
  | number x => cases hx : x.isFinite <;> simp [reloaded, number?, hx]
  | undefined | string s => simp [reloaded, number?]

lemma equal_reloaded_iff (v : Literal) :
    v.reloaded.equal v = true ↔ ∀ x ∈ v.number?, x.isFinite = true := by
  cases v with
  | number x =>
    cases hx : x.isFinite with
    | false => simp [reloaded, number?, equal, hx]
    | true =>
      have : (x == x) = true := Number.equal_self hx
      simp [reloaded, number?, equal, hx, this]
  | undefined | string s => simp [reloaded, number?, equal]

end Literal

/-! ### Terms -/

namespace Term

/-- The numbers among the constants of a term, in order. -/
def numbers (t : Term) : List Number :=
  t.subterms.filterMap fun
    | value v _ => v.number?
    | _ => none

variable {l : Option Location}

lemma numbers_value (v : Literal) : (value v l).numbers = v.number?.toList := by
  cases h : v.number? <;> simp [numbers, subterms, h]

lemma numbers_block (ts : List Term) : (block ts l).numbers = ts.flatMap numbers := by
  simp only [numbers, subterms, subtermsAll_eq_flatMap, List.filterMap_cons_none,
    List.filterMap_flatMap]
  rfl

mutual

/-- What a term becomes when it is written and read again. -/
def reloaded : Term → Term
  | value v l => value v.reloaded l
  | block ts l => block (reloadedAll ts) l
  | setLocal i v l => setLocal i (reloaded v) l
  | setGlobal n v l => setGlobal n (reloaded v) l
  | t => t

/-- What some terms become when they are written and read again. -/
def reloadedAll : List Term → List Term
  | [] => []
  | t :: ts => reloaded t :: reloadedAll ts

end

@[simp] lemma reloadedAll_eq_map (ts : List Term) : reloadedAll ts = ts.map reloaded := by
  induction ts with
  | nil => rfl
  | cons t ts ih => simp [reloadedAll, ih]

mutual

/-- Reloading keeps what a term refers to. -/
theorem callees_reloaded (t : Term) : t.reloaded.callees = t.callees := by
  match t with
  | value v l | getLocal i l | getGlobal n l | getFunction i l => rfl
  | setLocal i v l | setGlobal n v l => exact callees_reloaded v
  | block ts l =>
    simp only [reloaded, reloadedAll_eq_map, callees_block]
    exact callees_reloadedAll ts

theorem callees_reloadedAll (ts : List Term) :
    (ts.map reloaded).flatMap callees = ts.flatMap callees := by
  match ts with
  | [] => rfl
  | t :: ts =>
    rw [List.map_cons, List.flatMap_cons, List.flatMap_cons, callees_reloaded t,
      callees_reloadedAll ts]

end

mutual

/-- Reloading keeps a term if and only if its numbers are all finite. -/
theorem reloaded_eq_self_iff (t : Term) :
    t.reloaded = t ↔ ∀ x ∈ t.numbers, x.isFinite = true := by
  match t with
  | value v l =>
    simpa [reloaded, numbers_value] using v.reloaded_eq_self_iff
  | getLocal i l | getGlobal n l | getFunction i l => simp [reloaded, numbers, subterms]
  | setLocal i v l =>
    simp only [reloaded, setLocal.injEq, true_and, and_true]
    exact reloaded_eq_self_iff v
  | setGlobal n v l =>
    simp only [reloaded, setGlobal.injEq, true_and, and_true]
    exact reloaded_eq_self_iff v
  | block ts l =>
    simp only [reloaded, reloadedAll_eq_map, block.injEq, and_true, numbers_block]
    exact reloadedAll_eq_self_iff ts

theorem reloadedAll_eq_self_iff (ts : List Term) :
    ts.map reloaded = ts ↔ ∀ x ∈ ts.flatMap numbers, x.isFinite = true := by
  match ts with
  | [] => simp
  | t :: ts =>
    rw [List.map_cons, List.cons.injEq, List.flatMap_cons, List.forall_mem_append,
      reloaded_eq_self_iff t, reloadedAll_eq_self_iff ts]

end

mutual

/-- A reloaded term equals the term as numbers go if and only if its numbers are all finite. -/
theorem equal_reloaded_iff (t : Term) :
    t.reloaded.equal t = true ↔ ∀ x ∈ t.numbers, x.isFinite = true := by
  match t with
  | value v l =>
    have hv : (v.reloaded == v) = true ↔ _ := v.equal_reloaded_iff
    simpa [reloaded, equal, numbers_value] using hv
  | getLocal i l | getGlobal n l | getFunction i l => simp [reloaded, equal, numbers, subterms]
  | setLocal i v l | setGlobal n v l =>
    simp only [reloaded, equal, beq_self_eq_true, Bool.true_and, Bool.and_true]
    exact equal_reloaded_iff v
  | block ts l =>
    simp only [reloaded, reloadedAll_eq_map, equal, beq_self_eq_true, Bool.and_true, numbers_block]
    exact equalAll_reloaded_iff ts

theorem equalAll_reloaded_iff (ts : List Term) :
    equalAll (ts.map reloaded) ts = true ↔ ∀ x ∈ ts.flatMap numbers, x.isFinite = true := by
  match ts with
  | [] => simp [equalAll]
  | t :: ts =>
    rw [List.map_cons, equalAll, Bool.and_eq_true, List.flatMap_cons, List.forall_mem_append,
      equal_reloaded_iff t, equalAll_reloaded_iff ts]

end

end Term

/-! ### Graphs -/

/-- What a function becomes when it is written and read again. -/
def Function.reloaded (f : Function) : Function := { f with root := f.root.reloaded }

namespace Graph

/-- The numbers among the constants of a graph, in order. -/
def numbers (g : Graph) : List Number := g.functions.flatMap fun f => f.root.numbers

/-- What a graph becomes when it is written and read again. -/
def reloaded (g : Graph) : Graph := { g with functions := g.functions.map Function.reloaded }

lemma dangling?_reloaded (g : Graph) : g.reloaded.dangling? = g.dangling? := by
  have callees : g.reloaded.functions.flatMap (fun f => f.root.callees) =
      g.functions.flatMap fun f => f.root.callees := by
    simp [reloaded, Function.reloaded, List.flatMap_map, Term.callees_reloaded]
  have size : g.reloaded.size = g.size := by simp [size, reloaded]
  unfold dangling?
  rw [callees, size]
  rfl

lemma reloaded_eq_self_iff (g : Graph) :
    g.reloaded = g ↔ ∀ x ∈ g.numbers, x.isFinite = true := by
  have functions (fs : List Function) : fs.map Function.reloaded = fs ↔
      ∀ x ∈ fs.flatMap (fun f => f.root.numbers), x.isFinite = true := by
    induction fs with
    | nil => simp
    | cons f fs ih =>
      rw [List.map_cons, List.cons.injEq, ih, List.flatMap_cons, List.forall_mem_append,
        ← Term.reloaded_eq_self_iff]
      cases f
      simp [Function.reloaded]
  cases g
  simpa [reloaded, numbers] using functions _

lemma equal_reloaded_iff (g : Graph) :
    g.reloaded.equal g = true ↔ ∀ x ∈ g.numbers, x.isFinite = true := by
  have functions (fs : List Function) :
      ((fs.map Function.reloaded).zip fs).all (fun p =>
        p.1.localCount == p.2.localCount && p.1.arity == p.2.arity &&
          p.1.root.equal p.2.root) = true ↔
      ∀ x ∈ fs.flatMap (fun f => f.root.numbers), x.isFinite = true := by
    induction fs with
    | nil => simp
    | cons f fs ih =>
      rw [List.map_cons, List.zip_cons_cons, List.all_cons, Bool.and_eq_true, ih, List.flatMap_cons,
        List.forall_mem_append, ← Term.equal_reloaded_iff]
      simp [Function.reloaded]
  rw [numbers, ← functions]
  simp [equal, reloaded]

end Graph

end ScriptGraph
