import Mathlib.Data.List.Forall2
import ScriptGraph.Proofs.Evaluation
import ScriptGraph.Proofs.Lowering

/-!
# Lowered code means what the code does

Running the terms hoisted out of some code and then evaluating its term comes to the same store and
the same value as executing the code by slots. Only what comes before a term is ever hoisted out of
it, and what is dropped has no effect, so this goes through by induction over the code.
-/

namespace ScriptGraph

open Discipline (bySlot)

/-! ### Reads -/

lemma Variable.eval_get (den : Nat → Value) (x : Variable) (l : Location) (s : Store Value) :
    (x.get l).eval den s = (s, bySlot.read s x) := by
  cases x <;> rfl

lemma Variable.isSameVariable_get (x y : Variable) (l l' : Location) :
    (x.get l).isSameVariable (y.get l') = x.isSame y := by
  cases x <;> cases y <;> rfl

/-- A write of what a variable of the same slot or name holds changes nothing. -/
lemma write_read_of_isSame {x y : Variable} (h : x.isSame y = true) (s : Store Value) :
    bySlot.write s (bySlot.read s y) x = s := by
  cases x <;> cases y <;> simp only [Variable.isSame, beq_iff_eq, Bool.false_eq_true] at h
  · simp [Discipline.write, Discipline.read, bySlot, h]
  · simp [Discipline.write, Discipline.read, h]

lemma Term.isSameVariable_of_not_isRead {t v : Term} (h : ¬v.IsRead) :
    t.isSameVariable v = false := by
  cases t <;> cases v <;> simp_all [IsRead, isSameVariable]

/-- Whether a term reads the variable whose content some code yields, and no variable if the code
yields none. -/
def Reads (t : Term) : Option Variable → Prop
  | some x => ∃ l, t = x.get l
  | none => ¬t.IsRead

lemma Reads.isSameVariable {v : Term} {y? : Option Variable} (h : Reads v y?) (x : Variable)
    (l : Location) : (x.get l).isSameVariable v = y?.any x.isSame := by
  cases y? with
  | none => exact Term.isSameVariable_of_not_isRead h
  | some y =>
    obtain ⟨l', rfl⟩ := h
    exact Variable.isSameVariable_get x y l l'

namespace Resolved

mutual

theorem reads_lower? (r : Resolved) {fs fs' : List Function} {pre : List Term} {t : Term}
    (h : r.lower? fs = some (fs', pre, t)) : Reads t r.denotes? := by
  match r with
  | constant v l =>
    cases h
    exact id
  | read x l =>
    cases h
    exact ⟨l, rfl⟩
  | assign t v =>
    obtain ⟨_, _, _, _, _, -, -, hu, -⟩ := lower?_assign.1 h
    exact Builder.not_isRead_assign hu
  | declare x l =>
    cases h
    exact ⟨l, rfl⟩
  | define x l v =>
    obtain ⟨_, -, hu⟩ := lower?_define.1 h
    exact Builder.not_isRead_assign hu
  | scope body l =>
    obtain ⟨terms, hb, rfl, rfl⟩ := lower?_scope.1 h
    have hlast := reads_lowerAll? body hb
    cases hterms : terms.getLast? with
    | none =>
      rw [hterms] at hlast
      rw [denotes?, hlast]
      exact id
    | some t =>
      rw [hterms] at hlast
      exact hlast
  | function source arity count body l =>
    obtain ⟨fs₁, terms, -, -, -, rfl⟩ := lower?_function.1 h
    exact id

theorem reads_lowerAll? (rs : List Resolved) {fs fs' : List Function} {terms : List Term}
    (h : lowerAll? fs rs = some (fs', terms)) :
    match terms.getLast? with
    | some t => Reads t (denotesLast? rs)
    | none => denotesLast? rs = none := by
  match rs with
  | [] =>
    cases h
    rfl
  | [r] =>
    obtain ⟨fs₁, pre, t, terms', hr, hrs, rfl⟩ := lowerAll?_cons.1 h
    cases hrs
    simpa [denotesLast?] using reads_lower? r hr
  | r :: r' :: rs =>
    obtain ⟨fs₁, pre, t, terms', hr, hrs, rfl⟩ := lowerAll?_cons.1 h
    have hlast := reads_lowerAll? (r' :: rs) hrs
    obtain ⟨_, _, _, _, _, _, rfl⟩ := lowerAll?_cons.1 hrs
    simpa [denotesLast?, List.getLast?_append, List.getLast?_cons] using hlast

end

/-! ### Assignments -/

/-- The term of an assignment stores the value of its right side, unless both sides read the same
variable: then it yields undefined, and there is nothing to store. -/
lemma eval_assign {den : Nat → Value} {x : Variable} {l : Location} {v u : Term}
    {y? : Option Variable} (hv : Reads v y?)
    (hu : (Builder.assign (x.get l) v).toOption = some u) (s : Store Value) :
    u.eval den s = store bySlot x y? (v.eval den s).2 (v.eval den s).1 := by
  have hsame := hv.isSameVariable x l
  rcases Builder.assign_eq_some.1 hu with ⟨h, rfl⟩ | ⟨h, hp⟩
  · rw [hsame] at h
    cases y? with
    | none => cases h
    | some y =>
      obtain ⟨l', rfl⟩ := hv
      have hxy : x.isSame y = true := h
      rw [Variable.eval_get, store, write_read_of_isSame hxy, h]
      rfl
  · rw [hsame] at h
    rw [store, h]
    cases x <;> cases hp <;> rfl

/-! ### Procedures -/

/-- A function literal with its body resolved. -/
structure Procedure where
  source : Code
  arity : Nat
  /-- The number of slots. -/
  count : Nat
  body : List Resolved

mutual

/-- The function literals in some code, each after those inside it. -/
def procedures : Resolved → List Procedure
  | constant .. | read .. | declare .. => []
  | assign t v => procedures t ++ procedures v
  | define _ _ v => procedures v
  | scope body _ => proceduresAll body
  | function source arity count body _ => proceduresAll body ++ [⟨source, arity, count, body⟩]

/-- The function literals in some statements. -/
def proceduresAll : List Resolved → List Procedure
  | [] => []
  | r :: rs => procedures r ++ proceduresAll rs

end

mutual

/-- Lowering adds one function for each function literal. -/
theorem length_lower? (r : Resolved) {fs fs' : List Function} {pre : List Term} {t : Term}
    (h : r.lower? fs = some (fs', pre, t)) : fs'.length = fs.length + r.procedures.length := by
  match r with
  | constant .. | read .. | declare .. =>
    cases h
    rfl
  | assign t v =>
    obtain ⟨fs₁, _, _, _, _, ht, hv, -, -⟩ := lower?_assign.1 h
    rw [length_lower? v hv, length_lower? t ht, procedures, List.length_append, Nat.add_assoc]
  | define x l v =>
    obtain ⟨_, hv, -⟩ := lower?_define.1 h
    exact length_lower? v hv
  | scope body l =>
    obtain ⟨terms, hb, -, -⟩ := lower?_scope.1 h
    exact length_lowerAll? body hb
  | function source arity count body l =>
    obtain ⟨fs₁, terms, hb, rfl, -, -⟩ := lower?_function.1 h
    rw [List.length_append, length_lowerAll? body hb, procedures, List.length_append, Nat.add_assoc]
    rfl

theorem length_lowerAll? (rs : List Resolved) {fs fs' : List Function} {terms : List Term}
    (h : lowerAll? fs rs = some (fs', terms)) :
    fs'.length = fs.length + (proceduresAll rs).length := by
  match rs with
  | [] =>
    cases h
    rfl
  | r :: rs =>
    obtain ⟨fs₁, _, _, _, hr, hrs, -⟩ := lowerAll?_cons.1 h
    rw [length_lowerAll? rs hrs, length_lower? r hr, proceduresAll, List.length_append,
      Nat.add_assoc]

end

/-- Whether the functions from an index on are those of some procedures. -/
def Names (den : Nat → Value) (base : Nat) (ps : List Procedure) : Prop :=
  ∀ i p, ps[i]? = some p → den (base + i) = .function p.source

lemma names_append {den : Nat → Value} {base : Nat} {ps qs : List Procedure} :
    Names den base (ps ++ qs) ↔ Names den base ps ∧ Names den (base + ps.length) qs := by
  constructor
  · intro h
    refine ⟨?_, ?_⟩
    · intro i p hp
      have hi : i < ps.length := (List.getElem?_eq_some_iff.1 hp).1
      exact h i p (by rw [List.getElem?_append_left hi, hp])
    · intro i p hp
      rw [Nat.add_assoc]
      apply h (ps.length + i) p
      rw [List.getElem?_append_right (Nat.le_add_right _ _), Nat.add_sub_cancel_left, hp]
  · rintro ⟨hps, hqs⟩ i p hp
    by_cases hi : i < ps.length
    · exact hps i p (by rw [← List.getElem?_append_left hi, hp])
    · rw [List.getElem?_append_right (by omega)] at hp
      have := hqs (i - ps.length) p hp
      rwa [Nat.add_assoc, Nat.add_sub_cancel' (by omega)] at this

mutual

/-- Running what is hoisted out of some code and evaluating its term is executing the code. -/
theorem eval_lower? (r : Resolved) {fs fs' : List Function} {pre : List Term} {t : Term}
    {den : Nat → Value} (h : r.lower? fs = some (fs', pre, t))
    (hden : Names den fs.length r.procedures) (s : Store Value) :
    t.eval den (Term.run den pre s) = r.exec bySlot s := by
  match r with
  | constant v l =>
    cases h
    rfl
  | read x l =>
    cases h
    exact x.eval_get den l s
  | assign t v =>
    obtain ⟨fs₁, pre₁, t', pre₂, v', ht, hv, hu, rfl⟩ := lower?_assign.1 h
    rw [procedures, names_append, ← length_lower? t ht] at hden
    have htarget := eval_lower? t ht hden.1 s
    have hreads := reads_lower? t ht
    have hread : t'.IsRead := Builder.exists_assign.1 ⟨_, hu⟩
    cases hx : t.denotes? with
    | none =>
      rw [hx] at hreads
      exact absurd hread hreads
    | some x =>
      rw [hx] at hreads
      obtain ⟨l, rfl⟩ := hreads
      rw [x.eval_get] at htarget
      rw [eval_assign (reads_lower? v hv) hu, Term.run_append, eval_lower? v hv hden.2]
      simp only [exec, hx, ← htarget]
  | declare x l =>
    cases h
    simp [exec, Term.eval, bySlot]
  | define x l v =>
    obtain ⟨v', hv, hu⟩ := lower?_define.1 h
    rw [eval_assign (x := .bound x) (reads_lower? v hv) hu, eval_lower? v hv hden]
    rfl
  | scope body l =>
    obtain ⟨terms, hb, rfl, rfl⟩ := lower?_scope.1 h
    have hbody := evalAll_lowerAll? body hb hden s
    rw [exec, ← hbody]
    cases hlast : terms.getLast? with
    | none =>
      rw [List.getLast?_eq_none_iff] at hlast
      subst hlast
      rfl
    | some t =>
      obtain ⟨ts, rfl⟩ := List.getLast?_eq_some_iff.1 hlast
      rw [List.dropLast_concat, Term.evalAll_append_cons]
      rfl
  | function source arity count body l =>
    obtain ⟨fs₁, terms, hb, -, rfl, rfl⟩ := lower?_function.1 h
    rw [procedures, names_append, ← length_lowerAll? body hb] at hden
    have hfun := hden.2 0 _ rfl
    simp only [Nat.add_zero] at hfun
    simp [Term.eval, exec, hfun, bySlot]

theorem evalAll_lowerAll? (rs : List Resolved) {fs fs' : List Function} {terms : List Term}
    {den : Nat → Value} (h : lowerAll? fs rs = some (fs', terms))
    (hden : Names den fs.length (proceduresAll rs)) (s : Store Value) :
    Term.evalAll den terms s = execAll bySlot rs s := by
  match rs with
  | [] =>
    cases h
    rfl
  | [r] =>
    obtain ⟨fs₁, pre, t, terms', hr, hrs, rfl⟩ := lowerAll?_cons.1 h
    cases hrs
    rw [Term.evalAll_append_cons]
    refine eval_lower? r hr ?_ s
    simpa [proceduresAll] using hden
  | r :: r' :: rs =>
    obtain ⟨fs₁, pre, t, terms', hr, hrs, rfl⟩ := lowerAll?_cons.1 h
    rw [proceduresAll, names_append, ← length_lower? r hr] at hden
    have hhead := eval_lower? r hr hden.1 s
    have htail := evalAll_lowerAll? (r' :: rs) hrs hden.2 (r.exec bySlot s).1
    have hne : terms' ≠ [] := by
      obtain ⟨_, _, _, _, _, _, rfl⟩ := lowerAll?_cons.1 hrs
      simp
    rw [execAll, ← htail, ← hhead, Term.evalAll_append_cons, Term.evalAll_cons_of_ne_nil t hne]

end

/-! ### Roots of functions -/

/-- The root of a function does what all the terms of its body do. -/
lemma eval_closeBody (den : Nat → Value) (terms : List Term) (l : Location) (s : Store Value) :
    (closeBody terms l).eval den s = Term.evalAll den terms s := by
  have hrun : Term.run den (terms.dropLast.filter fun t => !t.isPure) s =
      Term.run den terms.dropLast s := Term.run_filter terms.dropLast s
  rw [closeBody]
  cases hlast : terms.getLast? with
  | none =>
    rw [List.getLast?_eq_none_iff] at hlast
    subst hlast
    rfl
  | some t =>
    obtain ⟨ts, rfl⟩ := List.getLast?_eq_some_iff.1 hlast
    rw [List.dropLast_concat] at hrun ⊢
    rw [Term.evalAll_append_cons, ← hrun]
    cases hkept : ts.filter fun t => !t.isPure with
    | nil => rfl
    | cons u us =>
      simp only [Term.eval, Option.toList_some]
      rw [Term.evalAll_append_cons]

/-- Whether a function does by slots what a procedure does. -/
structure Implements (den : Nat → Value) (f : Function) (p : Procedure) : Prop where
  arity : f.arity = p.arity
  count : f.localCount = p.count
  root : ∀ s, f.root.eval den s = execAll bySlot p.body s

mutual

/-- The functions that lowering adds are those of the function literals, in order. -/
theorem implements_lower? (r : Resolved) {fs fs' : List Function} {pre : List Term} {t : Term}
    {den : Nat → Value} (h : r.lower? fs = some (fs', pre, t))
    (hden : Names den fs.length r.procedures) :
    ∃ new, fs' = fs ++ new ∧ List.Forall₂ (Implements den) new r.procedures := by
  match r with
  | constant .. | read .. | declare .. =>
    cases h
    exact ⟨[], by simp, .nil⟩
  | assign t v =>
    obtain ⟨fs₁, _, _, _, _, ht, hv, -, -⟩ := lower?_assign.1 h
    rw [procedures, names_append, ← length_lower? t ht] at hden
    obtain ⟨new₁, rfl, hnew₁⟩ := implements_lower? t ht hden.1
    obtain ⟨new₂, rfl, hnew₂⟩ := implements_lower? v hv hden.2
    exact ⟨new₁ ++ new₂, by simp, List.rel_append hnew₁ hnew₂⟩
  | define x l v =>
    obtain ⟨_, hv, -⟩ := lower?_define.1 h
    exact implements_lower? v hv hden
  | scope body l =>
    obtain ⟨terms, hb, -, -⟩ := lower?_scope.1 h
    exact implements_lowerAll? body hb hden
  | function source arity count body l =>
    obtain ⟨fs₁, terms, hb, rfl, -, -⟩ := lower?_function.1 h
    rw [procedures, names_append] at hden
    have hroot : ∀ s, (closeBody terms l).eval den s = execAll bySlot body s := by
      intro s
      rw [eval_closeBody, evalAll_lowerAll? body hb hden.1]
    obtain ⟨new, rfl, hnew⟩ := implements_lowerAll? body hb hden.1
    refine ⟨new ++ [⟨count, arity, closeBody terms l⟩], by simp, ?_⟩
    exact List.rel_append hnew (.cons ⟨rfl, rfl, hroot⟩ .nil)

theorem implements_lowerAll? (rs : List Resolved) {fs fs' : List Function} {terms : List Term}
    {den : Nat → Value} (h : lowerAll? fs rs = some (fs', terms))
    (hden : Names den fs.length (proceduresAll rs)) :
    ∃ new, fs' = fs ++ new ∧ List.Forall₂ (Implements den) new (proceduresAll rs) := by
  match rs with
  | [] =>
    cases h
    exact ⟨[], by simp, .nil⟩
  | r :: rs =>
    obtain ⟨fs₁, _, _, _, hr, hrs, -⟩ := lowerAll?_cons.1 h
    rw [proceduresAll, names_append, ← length_lower? r hr] at hden
    obtain ⟨new₁, rfl, hnew₁⟩ := implements_lower? r hr hden.1
    obtain ⟨new₂, rfl, hnew₂⟩ := implements_lowerAll? rs hrs hden.2
    exact ⟨new₁ ++ new₂, by simp, List.rel_append hnew₁ hnew₂⟩

end

end Resolved

end ScriptGraph
