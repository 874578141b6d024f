import Mathlib.Tactic.Lemma
import ScriptGraph.Proofs.Resolution

/-!
# Lowering

The terms of resolved code. A `do` block has no term of its own: its statements but the last are
hoisted, in order, out of the expression that holds it, and its value is that of the last. So code
yields the terms hoisted out of it and the term of its value. A function literal adds a function to
those built before it. Lowering fails at an assignment whose target yields no read of a variable,
and only there.
-/

namespace ScriptGraph

/-- The read of a variable. -/
def Variable.get : Variable → Location → Term
  | bound x, l => .getLocal x.slot (some l)
  | free n, l => .getGlobal n (some l)

/-- The root of a function from the terms of its statements: those without an effect are dropped
unless they are last, a single term stands for itself, and nothing is undefined. -/
def closeBody (terms : List Term) (location : Location) : Term :=
  match terms.dropLast.filter fun t => !t.isPure with
  | [] => terms.getLast?.getD (.undefined (some location))
  | kept => .block (kept ++ terms.getLast?.toList) (some location)

namespace Resolved

mutual

/-- The functions after those of some code, the terms hoisted out of it and the term of its
value. -/
def lower? (fs : List Function) : Resolved → Option (List Function × List Term × Term)
  | constant v l => some (fs, [], .value v (some l))
  | read x l => some (fs, [], x.get l)
  | assign t v => do
    let (fs, hoisted, t) ← lower? fs t
    let (fs, hoisted', v) ← lower? fs v
    let t ← (Builder.assign t v).toOption
    return (fs, hoisted ++ hoisted', t)
  | declare x l => some (fs, [], .getLocal x.slot (some l))
  | define x l v => do
    let (fs, hoisted, v) ← lower? fs v
    let t ← (Builder.assign (.getLocal x.slot (some l)) v).toOption
    return (fs, hoisted, t)
  | scope body l => do
    let (fs, terms) ← lowerAll? fs body
    return (fs, terms.dropLast, terms.getLast?.getD (.undefined (some l)))
  | function _ arity count body l => do
    let (fs, terms) ← lowerAll? fs body
    return (fs ++ [⟨count, arity, closeBody terms l⟩], [], .getFunction fs.length (some l))

/-- The functions after those of some statements, and the terms of the statements in order. -/
def lowerAll? (fs : List Function) : List Resolved → Option (List Function × List Term)
  | [] => some (fs, [])
  | r :: rs => do
    let (fs, hoisted, t) ← lower? fs r
    let (fs, terms) ← lowerAll? fs rs
    return (fs, hoisted ++ t :: terms)

end

variable {fs fs' : List Function} {pre : List Term} {u : Term} {l : Location}

lemma lower?_assign {t v : Resolved} :
    (assign t v).lower? fs = some (fs', pre, u) ↔
      ∃ fs₁ pre₁ t' pre₂ v', t.lower? fs = some (fs₁, pre₁, t') ∧
        v.lower? fs₁ = some (fs', pre₂, v') ∧ (Builder.assign t' v').toOption = some u ∧
        pre = pre₁ ++ pre₂ := by
  simp only [lower?, Option.bind_eq_bind, Option.bind_eq_some_iff, Prod.exists, Option.pure_def,
    Option.some.injEq, Prod.mk.injEq]
  constructor
  · rintro ⟨fs₁, pre₁, t', ht, fs₂, pre₂, v', hv, u', hu, rfl, rfl, rfl⟩
    exact ⟨fs₁, pre₁, t', pre₂, v', ht, hv, hu, rfl⟩
  · rintro ⟨fs₁, pre₁, t', pre₂, v', ht, hv, hu, rfl⟩
    exact ⟨fs₁, pre₁, t', ht, fs', pre₂, v', hv, u, hu, rfl, rfl, rfl⟩

lemma lower?_define {x : Local} {v : Resolved} :
    (define x l v).lower? fs = some (fs', pre, u) ↔
      ∃ v', v.lower? fs = some (fs', pre, v') ∧
        (Builder.assign (.getLocal x.slot (some l)) v').toOption = some u := by
  simp only [lower?, Option.bind_eq_bind, Option.bind_eq_some_iff, Prod.exists, Option.pure_def,
    Option.some.injEq, Prod.mk.injEq]
  constructor
  · rintro ⟨fs₁, pre₁, v', hv, u', hu, rfl, rfl, rfl⟩
    exact ⟨v', hv, hu⟩
  · rintro ⟨v', hv, hu⟩
    exact ⟨fs', pre, v', hv, u, hu, rfl, rfl, rfl⟩

lemma lower?_scope {body : List Resolved} :
    (scope body l).lower? fs = some (fs', pre, u) ↔
      ∃ terms, lowerAll? fs body = some (fs', terms) ∧ pre = terms.dropLast ∧
        u = terms.getLast?.getD (.undefined (some l)) := by
  simp only [lower?, Option.bind_eq_bind, Option.bind_eq_some_iff, Prod.exists, Option.pure_def,
    Option.some.injEq, Prod.mk.injEq]
  constructor
  · rintro ⟨fs₁, terms, h, rfl, rfl, rfl⟩
    exact ⟨terms, h, rfl, rfl⟩
  · rintro ⟨terms, h, rfl, rfl⟩
    exact ⟨fs', terms, h, rfl, rfl, rfl⟩

lemma lower?_function {source : Code} {arity count : Nat} {body : List Resolved} :
    (function source arity count body l).lower? fs = some (fs', pre, u) ↔
      ∃ fs₁ terms, lowerAll? fs body = some (fs₁, terms) ∧
        fs' = fs₁ ++ [⟨count, arity, closeBody terms l⟩] ∧ pre = [] ∧
        u = .getFunction fs₁.length (some l) := by
  simp only [lower?, Option.bind_eq_bind, Option.bind_eq_some_iff, Prod.exists, Option.pure_def,
    Option.some.injEq, Prod.mk.injEq]
  constructor
  · rintro ⟨fs₁, terms, h, rfl, rfl, rfl⟩
    exact ⟨fs₁, terms, h, rfl, rfl, rfl⟩
  · rintro ⟨fs₁, terms, h, rfl, rfl, rfl⟩
    exact ⟨fs₁, terms, h, rfl, rfl, rfl⟩

lemma lowerAll?_cons {r : Resolved} {rs : List Resolved} {terms : List Term} :
    lowerAll? fs (r :: rs) = some (fs', terms) ↔
      ∃ fs₁ pre t terms', r.lower? fs = some (fs₁, pre, t) ∧
        lowerAll? fs₁ rs = some (fs', terms') ∧ terms = pre ++ t :: terms' := by
  simp only [lowerAll?, Option.bind_eq_bind, Option.bind_eq_some_iff, Prod.exists, Option.pure_def,
    Option.some.injEq, Prod.mk.injEq]
  constructor
  · rintro ⟨fs₁, pre, t, hr, fs₂, terms', hrs, rfl, rfl⟩
    exact ⟨fs₁, pre, t, terms', hr, hrs, rfl⟩
  · rintro ⟨fs₁, pre, t, terms', hr, hrs, rfl⟩
    exact ⟨fs₁, pre, t, hr, fs', terms', hrs, rfl, rfl⟩

end Resolved

/-! ### Targets of assignments -/

/-- Whether a term reads a variable. -/
def Term.IsRead : Term → Prop
  | .getLocal .. | .getGlobal .. => True
  | _ => False

/-- What comes of an assignment: nothing but the undefined value if both sides read the same
variable, and else a write. -/
lemma Builder.assign_eq_some {t v u : Term} :
    (Builder.assign t v).toOption = some u ↔
      t.isSameVariable v = true ∧ u = .undefined t.location ∨
      t.isSameVariable v = false ∧ t.promote? v = some u := by
  rw [Builder.assign]
  cases h : t.isSameVariable v with
  | true => simp [Except.toOption, eq_comm]
  | false =>
    cases hp : t.promote? v with
    | none => simp [Except.toOption]
    | some u' => simp [Except.toOption]

lemma Term.isRead_of_isSameVariable {t v : Term} (h : t.isSameVariable v = true) : t.IsRead := by
  cases t <;> simp_all [IsRead, isSameVariable]

lemma Term.exists_promote? {t v : Term} : (∃ u, t.promote? v = some u) ↔ t.IsRead := by
  cases t <;> simp [IsRead, promote?]

lemma Builder.exists_assign {t v : Term} :
    (∃ u, (Builder.assign t v).toOption = some u) ↔ t.IsRead := by
  simp only [Builder.assign_eq_some]
  constructor
  · rintro ⟨u, ⟨hsame, -⟩ | ⟨-, hu⟩⟩
    · exact Term.isRead_of_isSameVariable hsame
    · exact Term.exists_promote?.1 ⟨u, hu⟩
  · intro ht
    obtain ⟨u, hu⟩ := (Term.exists_promote? (v := v)).2 ht
    cases hsame : t.isSameVariable v with
    | true => exact ⟨_, .inl ⟨rfl, rfl⟩⟩
    | false => exact ⟨u, .inr ⟨rfl, hu⟩⟩

/-- An assignment itself reads no variable. -/
lemma Builder.not_isRead_assign {t v u : Term} (h : (Builder.assign t v).toOption = some u) :
    ¬u.IsRead := by
  rcases Builder.assign_eq_some.1 h with ⟨-, rfl⟩ | ⟨-, hu⟩
  · exact id
  · cases t <;> simp only [Term.promote?, reduceCtorEq, Option.some.injEq] at hu
    all_goals
      subst hu
      exact id

namespace Code

mutual

/-- The value of some code reads a variable exactly if the code can be assigned to. -/
theorem isRead_lower? (c : Code) {f f' : Frame} {r : Resolved} {fs fs' : List Function}
    {pre : List Term} {t : Term} (hr : c.resolve? f = some (f', r))
    (hl : r.lower? fs = some (fs', pre, t)) : t.IsRead ↔ c.IsTarget := by
  match c with
  | constant v l =>
    cases hr
    cases hl
    simp [Term.IsRead, IsTarget]
  | read n l =>
    cases hr
    cases hl
    cases f.denote n <;> simp [Term.IsRead, IsTarget, Variable.get]
  | assign t v =>
    obtain ⟨f₁, t', v', -, -, rfl⟩ := resolve?_assign.1 hr
    obtain ⟨_, _, _, _, _, -, -, hu, -⟩ := Resolved.lower?_assign.1 hl
    simp [Builder.not_isRead_assign hu, IsTarget]
  | declare n l =>
    obtain ⟨-, rfl⟩ := resolve?_declare.1 hr
    cases hl
    simp [Term.IsRead, IsTarget]
  | define n l v =>
    obtain ⟨f₁, v', -, -, rfl⟩ := resolve?_define.1 hr
    obtain ⟨_, -, hu⟩ := Resolved.lower?_define.1 hl
    simp [Builder.not_isRead_assign hu, IsTarget]
  | scope body l =>
    obtain ⟨inner, rs, hb, -, rfl⟩ := resolve?_scope.1 hr
    obtain ⟨terms, hterms, -, rfl⟩ := Resolved.lower?_scope.1 hl
    rw [IsTarget, ← isRead_lowerAll? body hb hterms]
    cases terms.getLast? <;> simp [Term.IsRead, Term.undefined]
  | function ps body l =>
    obtain ⟨start, inner, rs, -, -, -, rfl⟩ := resolve?_function.1 hr
    obtain ⟨fs₁, terms, -, -, -, rfl⟩ := Resolved.lower?_function.1 hl
    simp [Term.IsRead, IsTarget]

theorem isRead_lowerAll? (cs : List Code) {f f' : Frame} {rs : List Resolved}
    {fs fs' : List Function} {terms : List Term} (hr : resolveAll? f cs = some (f', rs))
    (hl : Resolved.lowerAll? fs rs = some (fs', terms)) :
    (∃ t, terms.getLast? = some t ∧ t.IsRead) ↔ EndsInTarget cs := by
  match cs with
  | [] =>
    cases hr
    cases hl
    simp [EndsInTarget]
  | [c] =>
    obtain ⟨f₁, r, rs', hc, hcs, rfl⟩ := resolveAll?_cons.1 hr
    cases hcs
    obtain ⟨fs₁, pre, t, terms', ht, hterms, rfl⟩ := Resolved.lowerAll?_cons.1 hl
    cases hterms
    simp [EndsInTarget, isRead_lower? c hc ht]
  | c :: c' :: cs =>
    obtain ⟨f₁, r, rs', hc, hcs, rfl⟩ := resolveAll?_cons.1 hr
    obtain ⟨fs₁, pre, t, terms', ht, hterms, rfl⟩ := Resolved.lowerAll?_cons.1 hl
    rw [EndsInTarget, ← isRead_lowerAll? (c' :: cs) hcs hterms]
    have hne : terms' ≠ [] := by
      obtain ⟨_, _, _, _, _, rfl⟩ := resolveAll?_cons.1 hcs
      obtain ⟨_, _, _, _, _, _, rfl⟩ := Resolved.lowerAll?_cons.1 hterms
      simp
    obtain ⟨t', ht'⟩ := Option.isSome_iff_exists.1 (List.getLast?_isSome.2 hne)
    simp [List.getLast?_append, List.getLast?_cons, ht']

end

mutual

/-- Resolved code can be lowered exactly if all its assignments have targets. -/
theorem exists_lower? (c : Code) {f f' : Frame} {r : Resolved} (fs : List Function)
    (hr : c.resolve? f = some (f', r)) :
    (∃ fs' pre t, r.lower? fs = some (fs', pre, t)) ↔ c.Assignable := by
  match c with
  | constant v l | read n l =>
    cases hr
    simp [Resolved.lower?, Assignable]
  | assign t v =>
    obtain ⟨f₁, t', v', ht, hv, rfl⟩ := resolve?_assign.1 hr
    simp only [Resolved.lower?_assign, Assignable]
    constructor
    · rintro ⟨fs', pre, u, fs₁, pre₁, x, pre₂, y, hx, hy, hu, -⟩
      have htarget : x.IsRead := Builder.exists_assign.1 ⟨u, hu⟩
      exact ⟨(isRead_lower? t ht hx).1 htarget, (exists_lower? t fs ht).1 ⟨_, _, _, hx⟩,
        (exists_lower? v fs₁ hv).1 ⟨_, _, _, hy⟩⟩
    · rintro ⟨htarget, hat, hav⟩
      obtain ⟨fs₁, pre₁, x, hx⟩ := (exists_lower? t fs ht).2 hat
      obtain ⟨fs', pre₂, y, hy⟩ := (exists_lower? v fs₁ hv).2 hav
      obtain ⟨u, hu⟩ := (Builder.exists_assign (v := y)).2 ((isRead_lower? t ht hx).2 htarget)
      exact ⟨fs', _, u, fs₁, pre₁, x, pre₂, y, hx, hy, hu, rfl⟩
  | declare n l =>
    obtain ⟨-, rfl⟩ := resolve?_declare.1 hr
    simp [Resolved.lower?, Assignable]
  | define n l v =>
    obtain ⟨f₁, v', hv, -, rfl⟩ := resolve?_define.1 hr
    simp only [Resolved.lower?_define, Assignable, ← exists_lower? v fs hv]
    constructor
    · rintro ⟨fs', pre, u, y, hy, -⟩
      exact ⟨fs', pre, y, hy⟩
    · rintro ⟨fs', pre, y, hy⟩
      obtain ⟨u, hu⟩ :=
        (Builder.exists_assign (t := .getLocal f₁.fresh.slot (some l)) (v := y)).2 trivial
      exact ⟨fs', pre, u, y, hy, hu⟩
  | scope body l =>
    obtain ⟨inner, rs, hb, -, rfl⟩ := resolve?_scope.1 hr
    simp only [Resolved.lower?_scope, Assignable, ← exists_lowerAll? body fs hb]
    constructor
    · rintro ⟨fs', pre, t, terms, h, -⟩
      exact ⟨fs', terms, h⟩
    · rintro ⟨fs', terms, h⟩
      exact ⟨fs', _, _, terms, h, rfl, rfl⟩
  | function ps body l =>
    obtain ⟨start, inner, rs, -, hb, -, rfl⟩ := resolve?_function.1 hr
    simp only [Resolved.lower?_function, Assignable, ← exists_lowerAll? body fs hb]
    constructor
    · rintro ⟨fs', pre, t, fs₁, terms, h, -⟩
      exact ⟨fs₁, terms, h⟩
    · rintro ⟨fs₁, terms, h⟩
      exact ⟨_, _, _, fs₁, terms, h, rfl, rfl, rfl⟩

theorem exists_lowerAll? (cs : List Code) {f f' : Frame} {rs : List Resolved}
    (fs : List Function) (hr : resolveAll? f cs = some (f', rs)) :
    (∃ fs' terms, Resolved.lowerAll? fs rs = some (fs', terms)) ↔ AssignableAll cs := by
  match cs with
  | [] =>
    cases hr
    simp [Resolved.lowerAll?, AssignableAll]
  | c :: cs =>
    obtain ⟨f₁, r, rs', hc, hcs, rfl⟩ := resolveAll?_cons.1 hr
    simp only [Resolved.lowerAll?_cons, AssignableAll]
    constructor
    · rintro ⟨fs', terms, fs₁, pre, t, terms', ht, hterms, -⟩
      exact ⟨(exists_lower? c fs hc).1 ⟨_, _, _, ht⟩,
        (exists_lowerAll? cs fs₁ hcs).1 ⟨_, _, hterms⟩⟩
    · rintro ⟨hac, hacs⟩
      obtain ⟨fs₁, pre, t, ht⟩ := (exists_lower? c fs hc).2 hac
      obtain ⟨fs', terms', hterms⟩ := (exists_lowerAll? cs fs₁ hcs).2 hacs
      exact ⟨fs', _, fs₁, pre, t, terms', ht, hterms, rfl⟩

end

end Code

end ScriptGraph
