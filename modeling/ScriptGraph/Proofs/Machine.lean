import Mathlib.Tactic.Lemma
import ScriptGraph.Parser.Basic
import ScriptGraph.Proofs.Code

/-!
# Runs of the building machine

A run carries instructions out one after another and fails with the first that fails. The
instructions of some code leave exactly one term on the stack and those of the statements of a block
leave nothing, whatever the builder holds.
-/

namespace ScriptGraph

lemma toOption_eq_some {x : Except ε α} {a : α} : x.toOption = some a ↔ x = .ok a := by
  cases x <;> simp [Except.toOption]

namespace Machine

/-- The machine after some instructions, unless one of them fails. -/
def run? (m : Machine) : List Instruction → Option Machine
  | [] => some m
  | i :: is =>
    match m.step i with
    | (m', .ok _) => run? m' is
    | (_, .error _) => none

@[simp] lemma run?_nil (m : Machine) : m.run? [] = some m := rfl

lemma run?_append (m : Machine) (is js : List Instruction) :
    m.run? (is ++ js) = (m.run? is).bind fun m' => m'.run? js := by
  induction is generalizing m with
  | nil => rfl
  | cons i is ih =>
    simp only [List.cons_append, run?]
    split
    · exact ih _
    · rfl

/-- A run of two parts succeeds if the first does and the second does after it. -/
lemma run?_append_eq_some {m m' : Machine} {is js : List Instruction} :
    m.run? (is ++ js) = some m' ↔ ∃ m₁, m.run? is = some m₁ ∧ m₁.run? js = some m' := by
  rw [run?_append, Option.bind_eq_some_iff]

lemma run?_cons_eq_some {m m' : Machine} {i : Instruction} {is : List Instruction} :
    m.run? (i :: is) = some m' ↔ ∃ m₁, m.run? [i] = some m₁ ∧ m₁.run? is = some m' := by
  rw [← List.singleton_append, run?_append_eq_some]

/-! ### Operands -/

lemma operands_run?_parameters {m m' : Machine} {ps : List (String × Location)}
    (h : m.run? (ps.map fun p => .parameter p.1 p.2) = some m') : m'.operands = m.operands := by
  induction ps generalizing m with
  | nil =>
    cases h
    rfl
  | cons p ps ih =>
    simp only [List.map_cons, run?, step] at h
    cases hb : m.builder.addParameter p.1 p.2 with
    | error e => simp [hb] at h
    | ok b =>
      simp only [hb] at h
      exact ih (m := { m with builder := b }) h

mutual

/-- The instructions of some code leave one more term on the stack. -/
theorem operands_run?_code (c : Code) {m m' : Machine} (h : m.run? c.instructions = some m') :
    ∃ t, m'.operands = t :: m.operands := by
  match c with
  | .constant v l | .read n l =>
    cases h
    exact ⟨_, rfl⟩
  | .declare n l =>
    simp only [Code.instructions, run?, step] at h
    cases hb : m.builder.declare n l with
    | error e => simp [hb] at h
    | ok r =>
      simp only [hb, yield, Option.some.injEq] at h
      exact ⟨r.2, by rw [← h]⟩
  | .assign t v =>
    rw [Code.instructions, run?_append_eq_some] at h
    obtain ⟨m₂, h₁, h₂⟩ := h
    obtain ⟨m₁, ht, hv⟩ := run?_append_eq_some.1 h₁
    obtain ⟨x, hx⟩ := operands_run?_code t ht
    obtain ⟨y, hy⟩ := operands_run?_code v hv
    rw [hx] at hy
    simp only [run?, step, hy] at h₂
    cases ha : Builder.assign x y with
    | error e => simp [ha] at h₂
    | ok r =>
      simp only [ha, yield, Option.some.injEq] at h₂
      exact ⟨r, by rw [← h₂]⟩
  | .define n l v =>
    rw [Code.instructions, run?_append_eq_some] at h
    obtain ⟨m₁, hv, h₂⟩ := h
    obtain ⟨y, hy⟩ := operands_run?_code v hv
    simp only [run?, step, hy] at h₂
    cases hb : m₁.builder.declare n l with
    | error e => simp [hb] at h₂
    | ok r =>
      cases ha : Builder.assign r.2 y with
      | error e => simp [hb, ha] at h₂
      | ok t =>
        simp only [hb, ha, yield, Option.some.injEq] at h₂
        exact ⟨t, by rw [← h₂]⟩
  | .scope body l =>
    rw [Code.instructions, run?_append_eq_some] at h
    obtain ⟨m₂, h₁, h₂⟩ := h
    rw [run?_cons_eq_some] at h₁
    obtain ⟨m₁, hpush, hbody⟩ := h₁
    cases hpush
    cases h₂
    exact ⟨_, by rw [operands_run?_body body hbody]⟩
  | .function ps body l =>
    rw [Code.instructions, run?_append_eq_some] at h
    obtain ⟨m₃, h₁, h₂⟩ := h
    obtain ⟨m₂, h₃, hbody⟩ := run?_append_eq_some.1 h₁
    rw [run?_cons_eq_some] at h₃
    obtain ⟨m₁, hpush, hps⟩ := h₃
    cases hpush
    cases h₂
    exact ⟨_, by rw [operands_run?_body body hbody, operands_run?_parameters hps]⟩

/-- The instructions of statements leave the stack as it was. -/
theorem operands_run?_body (cs : List Code) {m m' : Machine}
    (h : m.run? (Code.instructionsAll cs) = some m') : m'.operands = m.operands := by
  match cs with
  | [] =>
    cases h
    rfl
  | c :: cs =>
    rw [Code.instructionsAll, run?_append_eq_some] at h
    obtain ⟨m₁, hc, h₁⟩ := h
    obtain ⟨t, ht⟩ := operands_run?_code c hc
    rw [run?_cons_eq_some] at h₁
    obtain ⟨m₂, hs, hcs⟩ := h₁
    simp only [run?, step, ht, Option.some.injEq] at hs
    rw [operands_run?_body cs hcs, ← hs]

end

end Machine

/-- The parser performs events as the machine runs their instructions. -/
lemma Parser.perform_eq_ok {m m' : Machine} {es : List Event} :
    Parser.perform m es = .ok m' ↔ m.run? (es.map Event.instruction) = some m' := by
  induction es generalizing m with
  | nil => simp [Parser.perform]
  | cons e es ih =>
    simp only [Parser.perform, List.map_cons, Machine.run?]
    rcases hstep : m.step e.instruction with ⟨m₁, error | t⟩
    · simp
    · exact ih

end ScriptGraph
