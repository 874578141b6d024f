import Mathlib.Tactic.Lemma
import Mathlib.Tactic.SplitIfs
import ScriptGraph.Parser.Basic

/-!
# Readings that succeed

`g.Reads ending ts is x rest` says that `g` reads the lexemes of `ts` before `rest`, issues the
instructions `is` and yields `x`. Each way of putting grammars together is described by an
equivalence, so that a successful reading can be taken apart step by step, and put together in the
same steps.
-/

namespace ScriptGraph

/-- The instructions of a trace. -/
def Trace.instructions (t : Trace) : List Instruction := t.toList.map Event.instruction

@[simp] lemma Trace.instructions_empty : Trace.empty.instructions = [] := rfl

@[simp] lemma Trace.instructions_single (e : Event) :
    (Trace.single e).instructions = [e.instruction] := rfl

@[simp] lemma Trace.instructions_append (a b : Trace) :
    (a.append b).instructions = a.instructions ++ b.instructions := by
  simp [Trace.instructions]

/-! ### Where a reading can stand -/

/-- Whether the lexeme at the end of a stream is the end token, if the stream ends well. -/
def Ending.Proper : Ending → Prop
  | finished l => l.token = .eof
  | broken .. => True

/-- Whether there is a current lexeme: the stream does not break here. -/
def Stands (ending : Ending) (ts : List Lexeme) : Prop := ts = [] → ∃ l, ending = .finished l

lemma stands_cons (ending : Ending) (l : Lexeme) (ts : List Lexeme) : Stands ending (l :: ts) := by
  simp [Stands]

lemma Stands.append {ending : Ending} {ts : List Lexeme} (hs : Stands ending ts)
    (ls : List Lexeme) : Stands ending (ls ++ ts) := by
  intro h
  exact hs (List.append_eq_nil_iff.1 h).2

/-- A current lexeme other than the end token is the first one left. -/
lemma Stands.exists_cons {ending : Ending} {ts : List Lexeme} {t : Token} (hs : Stands ending ts)
    (hp : ending.Proper) (h : (Grammar.currentOf ending ts).token = t) (ht : t ≠ .eof) :
    ∃ l : Lexeme, ∃ ls, l.token = t ∧ ts = l :: ls := by
  cases ts with
  | nil =>
    obtain ⟨l, rfl⟩ := hs rfl
    exact absurd (h.symm.trans hp) ht
  | cons l ls => exact ⟨l, ls, h, rfl⟩

/-- The lexer's token is the one that it has just answered. -/
lemma Lexer.token_next {l l' : Lexer} {t : Token} (h : l.next = (l', .ok t)) :
    l'.current.token = t := by
  induction hn : l.remaining using Nat.strongRecOn generalizing l with
  | ind n ih =>
    rw [Lexer.next] at h
    split at h
    · simp at h
    · next l₁ t₁ h₁ =>
      split at h
      · next breaks _ =>
        simp only [Prod.mk.injEq, Except.ok.injEq] at h
        obtain ⟨rfl, rfl⟩ := h
        simp only [Lexer.nextRaw] at h₁
        split at h₁
        · simp at h₁
        · simp only [Prod.mk.injEq, Except.ok.injEq] at h₁
          obtain ⟨rfl, rfl⟩ := h₁
          rfl
      · next breaks ha =>
        have ht₁ : t₁ ≠ .eof := by rintro rfl; simpa using congrArg Prod.snd ha
        have hlt : l₁.remaining < l.remaining := Lexer.remaining_nextRaw h₁ (.inl ht₁)
        exact ih _ (hn ▸ hlt) (l := { l₁ with breaks }) h rfl

/-- The stream of a lexer ends with the end token or breaks. -/
lemma Lexer.proper_stream (l : Lexer) : l.stream.ending.Proper := by
  induction hn : l.remaining using Nat.strongRecOn generalizing l with
  | ind n ih =>
    rw [Lexer.stream]
    split
    · trivial
    · next l' t hnext =>
      split
      · next ht =>
        subst ht
        exact Lexer.token_next hnext
      · next ht => exact ih _ (hn ▸ Lexer.remaining_next hnext ht) l' rfl

namespace Grammar

variable {α β : Type} {ending : Ending} {ts rest : List Lexeme} {is : List Instruction}

/-- `g` reads the lexemes before `rest`, issues `is` and yields `x`. -/
def Reads (g : Grammar α) (ending : Ending) (ts : List Lexeme) (is : List Instruction) (x : α)
    (rest : List Lexeme) : Prop :=
  ∃ t : Trace, g ending ts = ⟨t, .ok (x, rest)⟩ ∧ t.instructions = is

/-! ### Combinations -/

lemma reads_pure {x y : α} :
    (pure x : Grammar α).Reads ending ts is y rest ↔ is = [] ∧ y = x ∧ rest = ts := by
  constructor
  · rintro ⟨t, h, rfl⟩
    cases h
    exact ⟨rfl, rfl, rfl⟩
  · rintro ⟨rfl, rfl, rfl⟩
    exact ⟨.empty, rfl, rfl⟩

lemma reads_bind {g : Grammar α} {f : α → Grammar β} {y : β} :
    (g >>= f).Reads ending ts is y rest ↔
      ∃ is₁ x mid is₂, g.Reads ending ts is₁ x mid ∧ (f x).Reads ending mid is₂ y rest ∧
        is = is₁ ++ is₂ := by
  have hbind : (g >>= f) ending ts = Grammar.bind g f ending ts := rfl
  constructor
  · rintro ⟨t, h, rfl⟩
    rw [hbind, Grammar.bind] at h
    split at h
    · simp at h
    · next t₁ x mid hg =>
      simp only [Reading.mk.injEq] at h
      obtain ⟨rfl, hf⟩ := h
      refine ⟨_, x, mid, _, ⟨t₁, hg, rfl⟩, ⟨(f x ending mid).trace, ?_, rfl⟩, ?_⟩
      · rw [← hf]
      · rw [Trace.instructions_append]
  · rintro ⟨_, x, mid, _, ⟨t₁, hg, rfl⟩, ⟨t₂, hf, rfl⟩, rfl⟩
    refine ⟨t₁.append t₂, ?_, by simp⟩
    simp only [hbind, Grammar.bind, hg, hf]

lemma reads_current {l : Lexeme} :
    current.Reads ending ts is l rest ↔ is = [] ∧ l = currentOf ending ts ∧ rest = ts := by
  constructor
  · rintro ⟨t, h, rfl⟩
    cases h
    exact ⟨rfl, rfl, rfl⟩
  · rintro ⟨rfl, rfl, rfl⟩
    exact ⟨.empty, rfl, rfl⟩

/-- Looking at the current lexeme reads nothing. -/
lemma reads_current_bind {f : Lexeme → Grammar β} {y : β} :
    (current >>= f).Reads ending ts is y rest ↔
      (f (currentOf ending ts)).Reads ending ts is y rest := by
  rw [reads_bind]
  constructor
  · rintro ⟨_, _, _, is₂, hc, hf, rfl⟩
    obtain ⟨rfl, rfl, rfl⟩ := reads_current.1 hc
    exact hf
  · intro hf
    exact ⟨[], _, ts, is, reads_current.2 ⟨rfl, rfl, rfl⟩, hf, rfl⟩

lemma reads_issue {i : Instruction} {u : Unit} :
    (issue i).Reads ending ts is u rest ↔ is = [i] ∧ rest = ts := by
  constructor
  · rintro ⟨t, h, rfl⟩
    cases h
    exact ⟨rfl, rfl⟩
  · rintro ⟨rfl, rfl⟩
    exact ⟨.single ⟨i, currentOf ending rest⟩, rfl, rfl⟩

lemma reads_issue_bind {i : Instruction} {f : Unit → Grammar β} {y : β} :
    (issue i >>= f).Reads ending ts is y rest ↔
      ∃ is', (f ()).Reads ending ts is' y rest ∧ is = i :: is' := by
  rw [reads_bind]
  constructor
  · rintro ⟨_, _, _, is₂, hi, hf, rfl⟩
    obtain ⟨rfl, rfl⟩ := reads_issue.1 hi
    exact ⟨is₂, hf, rfl⟩
  · rintro ⟨is₂, hf, rfl⟩
    exact ⟨[i], (), ts, is₂, reads_issue.2 ⟨rfl, rfl⟩, hf, rfl⟩

lemma not_reads_fail {error : Lexeme → Error} {x : α} :
    ¬(fail error).Reads ending ts is x rest := by
  rintro ⟨t, h, -⟩
  simp [fail] at h

lemma not_reads_expected {expectation : String} {x : α} :
    ¬(expected expectation).Reads ending ts is x rest := not_reads_fail

lemma not_reads_unsupported {what : Lexeme → String} {x : α} :
    ¬(unsupported what).Reads ending ts is x rest := not_reads_fail

/-! ### Moving on -/

lemma reads_standAt {ls : List Lexeme} {u : Unit} :
    (standAt ls).Reads ending ts is u rest ↔ is = [] ∧ rest = ls ∧ Stands ending ls := by
  constructor
  · rintro ⟨t, h, rfl⟩
    simp only [standAt] at h
    split at h
    · simp at h
    · next hb =>
      cases h
      refine ⟨rfl, rfl, ?_⟩
      rintro rfl
      cases ending with
      | finished l => exact ⟨l, rfl⟩
      | broken e p => exact absurd rfl (hb e p rfl)
  · rintro ⟨rfl, rfl, hs⟩
    refine ⟨.empty, ?_, rfl⟩
    simp only [standAt]
    split
    · obtain ⟨l, hl⟩ := hs rfl
      cases hl
    · rfl

lemma reads_start {u : Unit} :
    start.Reads ending ts is u rest ↔ is = [] ∧ rest = ts ∧ Stands ending ts := reads_standAt

lemma reads_advance {u : Unit} :
    advance.Reads ending ts is u rest ↔ is = [] ∧ rest = ts.tail ∧ Stands ending ts.tail :=
  reads_standAt

lemma reads_advance_bind {f : Unit → Grammar β} {y : β} :
    (advance >>= f).Reads ending ts is y rest ↔
      Stands ending ts.tail ∧ (f ()).Reads ending ts.tail is y rest := by
  rw [reads_bind]
  constructor
  · rintro ⟨_, _, _, is₂, ha, hf, rfl⟩
    obtain ⟨rfl, rfl, hs⟩ := reads_advance.1 ha
    exact ⟨hs, hf⟩
  · rintro ⟨hs, hf⟩
    exact ⟨[], (), _, is, reads_advance.2 ⟨rfl, rfl, hs⟩, hf, rfl⟩

/-- Passing over line breaks ends before the first lexeme that is none. -/
lemma reads_skipBreaks {u : Unit} (hs : Stands ending ts) :
    skipBreaks.Reads ending ts is u rest ↔
      is = [] ∧ rest = ts.dropWhile (fun t => t.token = .breakLine) ∧ Stands ending rest := by
  cases ts with
  | nil =>
    have : skipBreaks.Reads ending [] is u rest ↔
        (pure () : Grammar Unit).Reads ending [] is u rest := Iff.rfl
    rw [this, reads_pure]
    constructor
    · rintro ⟨rfl, -, rfl⟩
      exact ⟨rfl, rfl, hs⟩
    · rintro ⟨rfl, rfl, -⟩
      exact ⟨rfl, rfl, rfl⟩
  | cons l ls =>
    have : skipBreaks.Reads ending (l :: ls) is u rest ↔
        (standAt ((l :: ls).dropWhile fun t => t.token = .breakLine)).Reads ending (l :: ls) is u
          rest := Iff.rfl
    rw [this, reads_standAt]
    constructor
    · rintro ⟨rfl, rfl, h⟩
      exact ⟨rfl, rfl, h⟩
    · rintro ⟨rfl, rfl, h⟩
      exact ⟨rfl, rfl, h⟩

lemma reads_expect {token : Token} {expectation : String} {u : Unit} :
    (expect token expectation).Reads ending ts is u rest ↔
      (currentOf ending ts).token = token ∧ advance.Reads ending ts is u rest := by
  rw [expect, reads_current_bind]
  split_ifs with h
  · simp [h]
  · simp [h, not_reads_expected]

lemma reads_expect_bind {token : Token} {expectation : String} {f : Unit → Grammar β} {y : β} :
    (expect token expectation >>= f).Reads ending ts is y rest ↔
      (currentOf ending ts).token = token ∧ Stands ending ts.tail ∧
        (f ()).Reads ending ts.tail is y rest := by
  rw [← reads_advance_bind, reads_bind, reads_bind]
  simp only [reads_expect]
  constructor
  · rintro ⟨is₁, u, mid, is₂, ⟨ht, ha⟩, hf⟩
    exact ⟨ht, is₁, u, mid, is₂, ha, hf⟩
  · rintro ⟨ht, is₁, u, mid, is₂, ha, hf⟩
    exact ⟨is₁, u, mid, is₂, ⟨ht, ha⟩, hf⟩

lemma reads_ident {expectation : String} {x : String × Location} :
    (ident expectation).Reads ending ts is x rest ↔
      (currentOf ending ts).token = .ident ∧ advance.Reads ending ts is () rest ∧
        x = ((currentOf ending ts).name, (currentOf ending ts).location) := by
  rw [ident, reads_current_bind]
  split_ifs with h
  · simp only [reads_bind, reads_pure, reads_advance]
    constructor
    · rintro ⟨_, -, _, _, ⟨rfl, rfl, hs⟩, ⟨rfl, rfl, rfl⟩, rfl⟩
      exact ⟨h, ⟨rfl, rfl, hs⟩, rfl⟩
    · rintro ⟨-, ⟨rfl, rfl, hs⟩, rfl⟩
      exact ⟨[], (), _, [], ⟨rfl, rfl, hs⟩, ⟨rfl, rfl, rfl⟩, rfl⟩
  · simp [h, not_reads_expected]

lemma reads_ident_bind {expectation : String} {f : String × Location → Grammar β} {y : β} :
    (ident expectation >>= f).Reads ending ts is y rest ↔
      (currentOf ending ts).token = .ident ∧ Stands ending ts.tail ∧
        (f ((currentOf ending ts).name, (currentOf ending ts).location)).Reads ending ts.tail is y
          rest := by
  rw [reads_bind]
  constructor
  · rintro ⟨_, _, _, is₂, hi, hf, rfl⟩
    obtain ⟨ht, ha, rfl⟩ := reads_ident.1 hi
    obtain ⟨rfl, rfl, hs⟩ := reads_advance.1 ha
    exact ⟨ht, hs, hf⟩
  · rintro ⟨ht, hs, hf⟩
    exact ⟨[], _, _, is, reads_ident.2 ⟨ht, reads_advance.2 ⟨rfl, rfl, hs⟩, rfl⟩, hf, rfl⟩

/-! ### Readers of the language that do not nest -/

lemma reads_refuseUnary {u : Unit} :
    refuseUnary.Reads ending ts is u rest ↔
      (currentOf ending ts).token.isOperator = false ∧ is = [] ∧ rest = ts := by
  rw [refuseUnary, reads_current_bind]
  split_ifs with h
  · simp [h, not_reads_unsupported]
  · simp [h, reads_pure]

/-- Whether a lexeme can follow a term. -/
def MayFollow (l : Lexeme) : Prop :=
  l.token ≠ .bracketLeft ∧ l.token ≠ .dot ∧ l.token ≠ .parenLeft ∧
    (l.token.isOperator = true → l.isAssign = true)

lemma reads_refuseSuffix {u : Unit} :
    refuseSuffix.Reads ending ts is u rest ↔
      MayFollow (currentOf ending ts) ∧ is = [] ∧ rest = ts := by
  rw [refuseSuffix, reads_current_bind]
  split_ifs with hi hc ho
  · simp only [not_reads_unsupported, MayFollow, false_iff]
    rintro ⟨⟨hb, hd, -⟩, -⟩
    exact hi.elim hb hd
  · simp [not_reads_unsupported, MayFollow, hc]
  · simp [not_reads_unsupported, MayFollow, ho]
  · rw [not_or] at hi
    have : MayFollow (currentOf ending ts) :=
      ⟨hi.1, hi.2, hc, fun hop => Decidable.byContradiction fun hna => ho ⟨hop, hna⟩⟩
    simp [reads_pure, this]

lemma reads_endStatement {closing : Token} {u : Unit} :
    (endStatement closing).Reads ending ts is u rest ↔
      (currentOf ending ts).token = .breakLine ∧ advance.Reads ending ts is u rest ∨
        (currentOf ending ts).token ≠ .breakLine ∧ (currentOf ending ts).token = closing ∧
          is = [] ∧ rest = ts := by
  rw [endStatement, reads_current_bind]
  split_ifs with h hc
  · simp [h]
  · rw [reads_pure]
    constructor
    · rintro ⟨rfl, -, rfl⟩
      exact .inr ⟨h, hc, rfl, rfl⟩
    · rintro (⟨h', -⟩ | ⟨-, -, rfl, rfl⟩)
      · exact absurd h' h
      · exact ⟨rfl, rfl, rfl⟩
  · simp [h, hc, not_reads_expected]

end Grammar

end ScriptGraph
