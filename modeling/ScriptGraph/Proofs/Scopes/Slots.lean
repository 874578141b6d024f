import Mathlib.Data.List.Nodup
import ScriptGraph.Proofs.Scopes

/-!
# Slots of open functions

The open blocks of a function take its slots in turn, each block the next ones after those of the
blocks around it. So the slots in use are those below a number, and each is that of one local. The
end of a block gives its slots back.
-/

namespace ScriptGraph

/-! ### Slots of blocks -/

/-- Whether a local of a block, which is given by the number of blocks inside it, has a slot. -/
def BlockScope.Hold (blocks : List BlockScope) (depth : Nat) (name : String) (slot : Nat) : Prop :=
  ∃ b, blocks[depth]? = some b ∧ b.locals.lookup name = some slot

/-- Whether the locals of a block have different names and slots that follow one another. -/
structure BlockScope.Filled (b : BlockScope) : Prop where
  names : (b.locals.map Prod.fst).Nodup
  slots : b.locals.map Prod.snd = (List.range' b.firstLocal b.locals.length).reverse

/-- Whether some blocks share the slots below a number among them, each the next ones. -/
def Stacked : List BlockScope → Nat → Prop
  | [], n => n = 0
  | b :: outer, n =>
    b.Filled ∧ n = b.firstLocal + b.locals.length ∧ Stacked outer b.firstLocal

namespace BlockScope

variable {b : BlockScope} {n : String} {i : Nat}

lemma Filled.withLocal (h : b.Filled) (hn : b.locals.lookup n = none) :
    (b.withLocal n (b.firstLocal + b.locals.length)).Filled := by
  constructor
  · refine List.nodup_cons.2 ⟨?_, h.names⟩
    intro hmem
    obtain ⟨p, hp, rfl⟩ := List.mem_map.1 hmem
    simpa using List.lookup_eq_none_iff.1 hn p hp
  · simp [BlockScope.withLocal, List.range'_1_concat, h.slots]

/-- The slots of a block are those after the ones of the blocks around it. -/
lemma Filled.bounds (h : b.Filled) (hi : b.locals.lookup n = some i) :
    b.firstLocal ≤ i ∧ i < b.firstLocal + b.locals.length := by
  obtain ⟨l₁, l₂, hl, -⟩ := List.lookup_eq_some_iff.1 hi
  have hmem : i ∈ b.locals.map Prod.snd := by
    rw [hl]
    simp
  rw [h.slots, List.mem_reverse, List.mem_range'_1] at hmem
  exact hmem

lemma Filled.existsUnique (h : b.Filled) (hfirst : b.firstLocal ≤ i)
    (hlast : i < b.firstLocal + b.locals.length) : ∃! n, b.locals.lookup n = some i := by
  have hslots : (b.locals.map Prod.snd).Nodup := by
    rw [h.slots]
    exact List.nodup_reverse.2 List.nodup_range'
  have hmem : i ∈ b.locals.map Prod.snd := by
    rw [h.slots, List.mem_reverse, List.mem_range'_1]
    exact ⟨hfirst, hlast⟩
  obtain ⟨⟨n, j⟩, hn, rfl⟩ := List.mem_map.1 hmem
  obtain ⟨l₁, l₂, hl⟩ := List.append_of_mem hn
  refine ⟨n, List.lookup_eq_some_iff.2 ⟨l₁, l₂, hl, ?_⟩, ?_⟩
  · intro p hp
    have hnames := h.names
    rw [hl, List.map_append, List.nodup_append] at hnames
    have hne := hnames.2.2 p.1 (List.mem_map_of_mem hp) n (by simp)
    simpa using hne.symm
  · intro n' hn'
    obtain ⟨l₁', l₂', hl', -⟩ := List.lookup_eq_some_iff.1 hn'
    have hmem' : (n', j) ∈ b.locals := by
      rw [hl']
      simp
    exact congrArg Prod.fst (List.inj_on_of_nodup_map hslots hmem' hn rfl)

/-- A new local hides none of its block. -/
lemma lookup_withLocal {n' : String} {j : Nat} (hn : b.locals.lookup n' = none)
    (hi : b.locals.lookup n = some i) : (b.withLocal n' j).locals.lookup n = some i := by
  have hne : (n == n') = false := by
    refine beq_false_of_ne ?_
    rintro rfl
    rw [hn] at hi
    cases hi
  rw [withLocal, List.lookup_cons, hne]
  exact hi

lemma hold_zero {bs : List BlockScope} : Hold (b :: bs) 0 n i ↔ b.locals.lookup n = some i := by
  simp [Hold]

lemma hold_succ {bs : List BlockScope} {k : Nat} :
    Hold (b :: bs) (k + 1) n i ↔ Hold bs k n i := by
  simp [Hold]

end BlockScope

namespace Stacked

open BlockScope

variable {b : BlockScope} {bs : List BlockScope} {m : Nat}

lemma congr {bs bs' : List BlockScope} {m : Nat} (h : Stacked bs m)
    (hbare : bs'.map bare = bs.map bare) : Stacked bs' m := by
  induction bs generalizing bs' m with
  | nil =>
    obtain rfl : bs' = [] := List.map_eq_nil_iff.1 hbare
    exact h
  | cons b bs ih =>
    obtain ⟨b', bs', rfl, hb, hbs⟩ := List.map_eq_cons_iff.1 hbare
    obtain ⟨hfilled, hm, hstacked⟩ := h
    have hlocals : b'.locals = b.locals := (congrArg locals hb :)
    have hfirst : b'.firstLocal = b.firstLocal := (congrArg firstLocal hb :)
    refine ⟨⟨?_, ?_⟩, ?_, ?_⟩
    · rw [hlocals]
      exact hfilled.names
    · rw [hlocals, hfirst]
      exact hfilled.slots
    · rw [hlocals, hfirst]
      exact hm
    · rw [hfirst]
      exact ih hstacked hbs

/-- A slot in use is below the number. -/
lemma lt (h : Stacked bs m) {k : Nat} {n : String} {i : Nat} (hi : Hold bs k n i) : i < m := by
  induction bs generalizing k m with
  | nil =>
    obtain ⟨b, hb, -⟩ := hi
    cases hb
  | cons b bs ih =>
    obtain ⟨hfilled, rfl, hstacked⟩ := h
    cases k with
    | zero => exact (hfilled.bounds (hold_zero.1 hi)).2
    | succ k => exact Nat.lt_of_lt_of_le (ih hstacked (hold_succ.1 hi)) (Nat.le_add_right _ _)

/-- A slot below the number is that of one local. -/
lemma existsUnique (h : Stacked bs m) {i : Nat} (hi : i < m) :
    ∃! p : Nat × String, Hold bs p.1 p.2 i := by
  induction bs generalizing m with
  | nil =>
    obtain rfl : m = 0 := h
    exact absurd hi (Nat.not_lt_zero i)
  | cons b bs ih =>
    obtain ⟨hfilled, rfl, hstacked⟩ := h
    rcases Nat.lt_or_ge i b.firstLocal with hlt | hge
    · obtain ⟨⟨k, n⟩, hheld, hunique⟩ := ih hstacked hlt
      refine ⟨(k + 1, n), hold_succ.2 hheld, ?_⟩
      rintro ⟨_ | k', n'⟩ hheld'
      · have := (hfilled.bounds (hold_zero.1 hheld')).1
        omega
      · obtain ⟨rfl, rfl⟩ := Prod.mk.inj (hunique (k', n') (hold_succ.1 hheld'))
        rfl
    · obtain ⟨n, hheld, hunique⟩ := hfilled.existsUnique hge hi
      refine ⟨(0, n), hold_zero.2 hheld, ?_⟩
      rintro ⟨_ | k', n'⟩ hheld'
      · rw [hunique n' (hold_zero.1 hheld')]
      · have := hstacked.lt (hold_succ.1 hheld')
        omega

lemma names (h : Stacked bs m) : ∀ b ∈ bs, (b.locals.map Prod.fst).Nodup := by
  induction bs generalizing m with
  | nil => nofun
  | cons b bs ih =>
    obtain ⟨hfilled, -, hstacked⟩ := h
    intro c hc
    rcases List.mem_cons.1 hc with rfl | hc
    · exact hfilled.names
    · exact ih hstacked c hc

end Stacked

namespace Scope

variable {m : Machine} {i : Instruction} {s s' : Scope}

/-- An instruction lets a block use the next slots only. -/
lemma Turn.stacked (h : s.Turn m i s') (hs : Stacked s.blocks s.function.nextLocal) :
    Stacked s'.blocks s'.function.nextLocal := by
  cases h with
  | keep hi hbare => exact hs.congr hbare
  | declare hi hn | parameter hi hn hf =>
    obtain ⟨hfilled, hnext, houter⟩ := hs
    dsimp only at hnext ⊢
    rw [hnext]
    refine ⟨hfilled.withLocal hn, ?_, houter⟩
    simp [FunctionScope.withLocal, BlockScope.withLocal, hnext, Nat.add_assoc]
  | pushBlock hi => exact ⟨⟨List.nodup_nil, rfl⟩, rfl, hs⟩
  | popBlock hi hbs => exact hs.2.2

/-- The number of locals that a function needs grows with the slots in use, and only with them. -/
lemma Turn.localCount (h : s.Turn m i s') (hs : Stacked s.blocks s.function.nextLocal)
    (hle : s.function.nextLocal ≤ s.function.localCount) :
    s'.function.localCount = max s'.function.nextLocal s.function.localCount := by
  cases h with
  | keep hi hbare => exact (Nat.max_eq_right hle).symm
  | declare hi hn | parameter hi hn hf => exact Nat.max_comm _ _
  | pushBlock hi => exact (Nat.max_eq_right hle).symm
  | popBlock hi hbs =>
    obtain ⟨-, hnext, -⟩ := hs
    refine (Nat.max_eq_right (Nat.le_trans ?_ hle)).symm
    exact hnext ▸ Nat.le_add_right _ _

end Scope

end ScriptGraph
