import ScriptGraph.Proofs.Reading.Soundness

/-!
# Fuel

The readers nest with less and less fuel. A statement, its expression and the term of that are
entered one after another with the same lexemes left; any other part is entered after a lexeme has
been passed. So with a little more than two units of fuel for each lexeme no reader runs out of it:
with more fuel all of them read the same, also where they fail.
-/

namespace ScriptGraph.Grammar

open Phrase

variable {α β : Type} {ending : Ending} {ts : List Lexeme} {n : Nat}

/-! ### Grammars that read the same -/

lemma bind_congr {g g' : Grammar α} {f f' : α → Grammar β} (hg : g ending ts = g' ending ts)
    (hf : ∀ is x rest, g.Reads ending ts is x rest → f x ending rest = f' x ending rest) :
    (g >>= f) ending ts = (g' >>= f') ending ts := by
  change Grammar.bind g f ending ts = Grammar.bind g' f' ending ts
  rw [Grammar.bind, Grammar.bind, ← hg]
  rcases hr : g ending ts with ⟨trace, e | ⟨x, rest⟩⟩
  · rfl
  · dsimp only
    rw [hf _ x rest ⟨trace, hr, rfl⟩]

lemma current_bind_congr {f f' : Lexeme → Grammar β}
    (h : f (currentOf ending ts) ending ts = f' (currentOf ending ts) ending ts) :
    (current >>= f) ending ts = (current >>= f') ending ts := by
  apply bind_congr rfl
  intro is x rest hx
  obtain ⟨-, rfl, rfl⟩ := reads_current.1 hx
  exact h

lemma issue_bind_congr {i : Instruction} {f f' : Unit → Grammar β}
    (h : f () ending ts = f' () ending ts) :
    (issue i >>= f) ending ts = (issue i >>= f') ending ts := by
  apply bind_congr rfl
  intro is x rest hx
  obtain ⟨-, rfl⟩ := reads_issue.1 hx
  exact h

lemma advance_bind_congr {f f' : Unit → Grammar β}
    (h : Stands ending ts.tail → f () ending ts.tail = f' () ending ts.tail) :
    (advance >>= f) ending ts = (advance >>= f') ending ts := by
  apply bind_congr rfl
  intro is x rest hx
  obtain ⟨-, rfl, hs⟩ := reads_advance.1 hx
  exact h hs

lemma expect_bind_congr {t : Token} {expectation : String} {f f' : Unit → Grammar β}
    (h : (currentOf ending ts).token = t → Stands ending ts.tail →
      f () ending ts.tail = f' () ending ts.tail) :
    (expect t expectation >>= f) ending ts = (expect t expectation >>= f') ending ts := by
  apply bind_congr rfl
  intro is x rest hx
  obtain ⟨ht, hnext⟩ := reads_expect.1 hx
  obtain ⟨-, rfl, hs⟩ := reads_advance.1 hnext
  exact h ht hs

lemma ident_bind_congr {expectation : String} {f f' : String × Location → Grammar β}
    (h : ∀ x, (currentOf ending ts).token = .ident → Stands ending ts.tail →
      f x ending ts.tail = f' x ending ts.tail) :
    (ident expectation >>= f) ending ts = (ident expectation >>= f') ending ts := by
  apply bind_congr rfl
  intro is x rest hx
  obtain ⟨ht, hnext, -⟩ := reads_ident.1 hx
  obtain ⟨-, rfl, hs⟩ := reads_advance.1 hnext
  exact h x ht hs

/-- A first part that does not change is followed by the same. -/
lemma then_congr {g g' : Grammar α} {f : α → Grammar β} (hg : g ending ts = g' ending ts) :
    (g >>= f) ending ts = (g' >>= f) ending ts := bind_congr hg fun _ _ _ _ => rfl

/-! ### One more unit of fuel -/

/-- Passing over a lexeme other than the end token leaves fewer of them. -/
lemma length_tail_lt {t : Token} (hp : ending.Proper) (hs : Stands ending ts)
    (ht : (currentOf ending ts).token = t) (hne : t ≠ .eof) : ts.tail.length < ts.length := by
  obtain ⟨l, ls, -, rfl⟩ := hs.exists_cons hp ht hne
  exact Nat.lt_succ_self _

/-- Passing over line breaks leaves no more lexemes than before. -/
lemma length_le_of_skipBreaks {is : List Instruction} {u : Unit} {rest : List Lexeme}
    (hs : Stands ending ts) (h : skipBreaks.Reads ending ts is u rest) :
    rest.length ≤ ts.length ∧ Stands ending rest := by
  obtain ⟨-, rfl, hs₁⟩ := (reads_skipBreaks hs).1 h
  exact ⟨(List.dropWhile_sublist _).length_le, hs₁⟩

lemma parameterNames_succ (hp : ending.Proper) (hs : Stands ending ts) (h : ts.length < n) :
    parameterNames (n + 1) ending ts = parameterNames n ending ts := by
  induction n generalizing ts with
  | zero => exact absurd h (Nat.not_lt_zero _)
  | succ n ih =>
    apply ident_bind_congr
    rintro ⟨name, location⟩ hident hs₁
    have hlt := length_tail_lt hp hs hident (by decide)
    apply issue_bind_congr
    apply current_bind_congr
    split_ifs with hcomma
    · apply advance_bind_congr
      intro hs₂
      have hlt' := length_tail_lt hp hs₁ hcomma (by decide)
      exact ih hs₂ (by omega)
    · rfl

lemma parameters_succ (hp : ending.Proper) (h : ts.tail.length < n) :
    parameters (n + 1) ending ts = parameters n ending ts := by
  apply advance_bind_congr
  intro hs
  apply current_bind_congr
  dsimp only
  split_ifs
  · exact then_congr (parameterNames_succ hp hs h)
  · rfl

/-- Whether with one more unit of fuel no reader reads anything else. -/
structure Ample (ending : Ending) (n : Nat) : Prop where
  term (ts : List Lexeme) (hs : Stands ending ts) (h : 2 * ts.length + 1 ≤ n) :
    term (n + 1) ending ts = term n ending ts
  expression (ts : List Lexeme) (hs : Stands ending ts) (h : 2 * ts.length + 2 ≤ n) :
    expression (n + 1) ending ts = expression n ending ts
  statement (ts : List Lexeme) (hs : Stands ending ts) (h : 2 * ts.length + 3 ≤ n) :
    statement (n + 1) ending ts = statement n ending ts
  statements (ts : List Lexeme) (hs : Stands ending ts) (h : 2 * ts.length + 4 ≤ n) :
    statements (n + 1) ending ts = statements n ending ts

lemma statement_succ (ih : Ample ending n) (hs : Stands ending ts)
    (h : 2 * ts.length + 3 ≤ n + 1) :
    statement (n + 2) ending ts = statement (n + 1) ending ts := by
  apply current_bind_congr
  split_ifs
  · apply advance_bind_congr
    intro hs₁
    apply ident_bind_congr
    rintro ⟨name, location⟩ - hs₂
    apply current_bind_congr
    split_ifs
    · apply advance_bind_congr
      intro hs₃
      apply then_congr
      apply ih.expression _ hs₃
      simp only [List.length_tail]
      omega
    · rfl
  · exact ih.expression ts hs (Nat.le_of_succ_le_succ h)

lemma expression_succ (hp : ending.Proper) (ih : Ample ending n) (hs : Stands ending ts)
    (h : 2 * ts.length + 2 ≤ n + 1) :
    expression (n + 2) ending ts = expression (n + 1) ending ts := by
  apply bind_congr rfl
  intro is _ rest hunary
  obtain ⟨-, -, rfl⟩ := reads_refuseUnary.1 hunary
  apply bind_congr (ih.term rest hs (Nat.le_of_succ_le_succ h))
  intro is _ rest' hterm
  obtain ⟨a, rfl, -, hs₁⟩ := (sound hp (n + 1)).term hs hterm
  apply bind_congr rfl
  intro is _ rest'' hsuffix
  obtain ⟨-, -, rfl⟩ := reads_refuseSuffix.1 hsuffix
  apply current_bind_congr
  split_ifs
  · apply advance_bind_congr
    intro hs₂
    apply then_congr
    apply ih.expression _ hs₂
    obtain ⟨l, ls, hl, -⟩ := a.exists_cons
    rw [hl, List.length_append, List.length_cons] at h
    rw [List.length_tail]
    omega
  · rfl

/-- A block in braces, before which a lexeme has been passed. -/
lemma block_succ {i : Instruction} {expectation : String} (hp : ending.Proper)
    (ih : Ample ending n) (hs : Stands ending ts) (h : 2 * ts.length + 2 ≤ n) :
    (do expect .braceLeft expectation; statements (n + 1); issue i : Grammar Unit) ending ts =
      (do expect .braceLeft expectation; statements n; issue i : Grammar Unit) ending ts := by
  apply expect_bind_congr
  intro hbrace hs₁
  have hlt := length_tail_lt hp hs hbrace (by decide)
  apply then_congr
  exact ih.statements _ hs₁ (by omega)

lemma term_succ (hp : ending.Proper) (ih : Ample ending n) (hs : Stands ending ts)
    (h : 2 * ts.length + 1 ≤ n + 1) : term (n + 2) ending ts = term (n + 1) ending ts := by
  apply current_bind_congr
  dsimp only
  cases ht : (currentOf ending ts).token with
  | parenLeft =>
    have hlt := length_tail_lt hp hs ht (by decide)
    apply advance_bind_congr
    intro hs₁
    apply then_congr
    exact ih.expression _ hs₁ (by omega)
  | kwDo =>
    have hlt := length_tail_lt hp hs ht (by decide)
    apply advance_bind_congr
    intro hs₁
    apply issue_bind_congr
    exact block_succ hp ih hs₁ (by omega)
  | kwFun =>
    have hlt := length_tail_lt hp hs ht (by decide)
    apply advance_bind_congr
    intro hs₁
    apply issue_bind_congr
    apply current_bind_congr
    split_ifs with hparen
    · have hlt' := length_tail_lt hp hs₁ hparen (by decide)
      apply bind_congr (parameters_succ hp (by omega))
      intro is _ rest hparameters
      obtain ⟨o, ls, ho, hls⟩ := hs₁.exists_cons hp hparen (by decide)
      rw [hls] at hparameters
      obtain ⟨ps, hps, -, hs₂⟩ := reads_parameters_sound (o := ⟨o, ho⟩) hp hparameters
      have hlength := congrArg List.length hps
      rw [← hls, List.length_append] at hlength
      exact block_succ hp ih hs₂ (by omega)
    · exact block_succ hp ih hs₁ (by omega)
  | _ => rfl

lemma statements_succ (hp : ending.Proper) (ih : Ample ending n) (hs : Stands ending ts)
    (h : 2 * ts.length + 4 ≤ n + 1) :
    statements (n + 2) ending ts = statements (n + 1) ending ts := by
  apply bind_congr rfl
  intro is _ rest hbreaks
  obtain ⟨hle, hs₁⟩ := length_le_of_skipBreaks hs hbreaks
  apply current_bind_congr
  split_ifs
  · rfl
  · rfl
  · apply bind_congr (ih.statement rest hs₁ (by omega))
    intro is _ rest' hstatement
    obtain ⟨s, rfl, -, hs₂⟩ := (sound hp (n + 1)).statement hs₁ hstatement
    apply issue_bind_congr
    apply bind_congr rfl
    intro is _ rest'' hend
    obtain ⟨l, ls, hl, -⟩ := s.exists_cons
    rw [hl, List.length_append, List.length_cons] at hle
    obtain ⟨-, hnext⟩ | ⟨-, -, -, rfl⟩ := reads_endStatement.1 hend
    · obtain ⟨-, rfl, hs₃⟩ := reads_advance.1 hnext
      apply ih.statements _ hs₃
      rw [List.length_tail]
      omega
    · exact ih.statements _ hs₂ (by omega)

/-- No reader needs more fuel. -/
theorem ample (hp : ending.Proper) (n : Nat) : Ample ending n := by
  induction n with
  | zero => constructor <;> intro ts _ h <;> exact absurd h (Nat.not_succ_le_zero _)
  | succ n ih =>
    exact ⟨fun _ => term_succ hp ih, fun _ => expression_succ hp ih, fun _ => statement_succ ih,
      fun _ => statements_succ hp ih⟩

/-- With enough fuel for a statement the next step of a unit does not depend on how much there
is. -/
theorem unitStep_add (hp : ending.Proper) (h : 2 * ts.length + 3 ≤ n) (k : Nat) (isFirst : Bool)
    (hs : isFirst = false → Stands ending ts) :
    unitStep (n + k) isFirst ending ts = unitStep n isFirst ending ts := by
  induction k with
  | zero => rfl
  | succ k ih =>
    rw [← ih]
    have hstep (hs : Stands ending ts) :
        unitStep (n + k + 1) false ending ts = unitStep (n + k) false ending ts := by
      apply bind_congr rfl
      intro is _ rest hbreaks
      obtain ⟨hle, hs₁⟩ := length_le_of_skipBreaks hs hbreaks
      apply current_bind_congr
      split_ifs
      · rfl
      · exact then_congr ((ample hp (n + k)).statement rest hs₁ (by omega))
    cases isFirst with
    | false => exact hstep (hs rfl)
    | true =>
      apply issue_bind_congr
      apply bind_congr rfl
      intro is _ rest hstart
      obtain ⟨-, rfl, hs⟩ := reads_start.1 hstart
      exact hstep hs

end ScriptGraph.Grammar
