import ScriptGraph.Proofs.Phrase.Unambiguity
import ScriptGraph.Proofs.Reading

/-!
# What is read is derivable

Whatever a part of the grammar reads successfully are the leaves of a phrase of that part, and the
instructions issued on the way are those of the phrase's code. The proof follows the recursion of
the readers: `Sound ending n` says it of all four of them with fuel `n`, and every reader with one
more unit of fuel is opened once.
-/

namespace ScriptGraph.Grammar

open Phrase

variable {ending : Ending} {ts rest : List Lexeme} {is : List Instruction} {n : Nat}

/-- An instruction that declares a parameter. -/
def parameterAt (l : Lexeme) : Instruction := .parameter l.name l.location

/-! ### Line breaks and assignment signs -/

/-- The leading line breaks of some lexemes are leaves. -/
lemma exists_breaks (ts : List Lexeme) :
    ∃ bs : List (Leaf .breakLine),
      ts = breakLexemes bs ++ ts.dropWhile (fun t => t.token = .breakLine) := by
  induction ts with
  | nil => exact ⟨[], rfl⟩
  | cons l ls ih =>
    by_cases h : l.token = .breakLine
    · obtain ⟨bs, hbs⟩ := ih
      refine ⟨⟨l, h⟩ :: bs, ?_⟩
      simp only [breakLexemes_cons, List.dropWhile_cons, h, decide_true, if_true,
        List.cons_append, List.cons.injEq, true_and]
      exact hbs
    · exact ⟨[], by simp [h]⟩

/-- A current assignment sign is the first lexeme left. -/
lemma exists_sign (hs : Stands ending ts) (hp : ending.Proper)
    (h : (currentOf ending ts).isAssign = true) :
    ∃ (s : Sign) (ls : List Lexeme), ts = s.val :: ls := by
  have ht : (currentOf ending ts).token = .assign := by
    simp only [Lexeme.isAssign, decide_eq_true_eq] at h
    exact h.1
  obtain ⟨l, ls, -, rfl⟩ := hs.exists_cons hp ht (by decide)
  exact ⟨⟨l, h⟩, ls, rfl⟩

/-! ### Parameters -/

lemma reads_parameterNames_sound (hp : ending.Proper) {u : Unit} (hs : Stands ending ts)
    (h : (parameterNames n).Reads ending ts is u rest) :
    ∃ (f : Leaf .ident) (more : List (Leaf .comma × Leaf .ident)),
      ts = f.val :: moreLexemes more ++ rest ∧
        is = (f.val :: more.map fun p => p.2.val).map parameterAt ∧ Stands ending rest := by
  induction n generalizing ts is with
  | zero => exact absurd h not_reads_expected
  | succ n ih =>
    rw [parameterNames, reads_ident_bind] at h
    obtain ⟨ht, hs₁, h⟩ := h
    obtain ⟨l, ls, hl, rfl⟩ := hs.exists_cons hp ht (by decide)
    obtain ⟨is, hmore, rfl⟩ := reads_issue_bind.1 h
    rw [reads_current_bind] at hmore
    split_ifs at hmore with hc
    · obtain ⟨c, ls, hc, rfl⟩ := hs₁.exists_cons hp hc (by decide)
      obtain ⟨hs₂, hmore⟩ := reads_advance_bind.1 hmore
      obtain ⟨f, more, hls, rfl, hrest⟩ := ih hs₂ hmore
      rw [List.tail_cons, List.tail_cons] at hls
      exact ⟨⟨l, hl⟩, (⟨c, hc⟩, f) :: more, by simp [hls],
        by simp [parameterAt, currentOf], hrest⟩
    · obtain ⟨rfl, -, rfl⟩ := reads_pure.1 hmore
      exact ⟨⟨l, hl⟩, [], by simp, by simp [parameterAt, currentOf], hs₁⟩

lemma reads_parameters_sound (hp : ending.Proper) {u : Unit} {o : Leaf .parenLeft}
    {ls : List Lexeme} (h : (parameters n).Reads ending (o.val :: ls) is u rest) :
    ∃ ps : Parameters, o.val :: ls = ps.lexemes ++ rest ∧ is = ps.names.map parameterAt ∧
      Stands ending rest := by
  rw [parameters, reads_advance_bind, List.tail_cons, reads_current_bind] at h
  obtain ⟨hs, h⟩ := h
  dsimp only at h
  split_ifs at h with ht
  · obtain ⟨_, _, mid, _, hlist, hclose, rfl⟩ := reads_bind.1 h
    obtain ⟨hc, hend⟩ := reads_expect.1 hclose
    obtain ⟨rfl, rfl, hrest⟩ := reads_advance.1 hend
    obtain ⟨f, more, rfl, rfl, hmid⟩ := reads_parameterNames_sound hp hs hlist
    obtain ⟨c, ls, hc, rfl⟩ := hmid.exists_cons hp hc (by decide)
    exact ⟨.some o f more ⟨c, hc⟩, by simp [Parameters.lexemes], by simp [Parameters.names], hrest⟩
  · obtain ⟨hc, hend⟩ := reads_expect.1 h
    obtain ⟨rfl, rfl, hrest⟩ := reads_advance.1 hend
    obtain ⟨c, ls, hc, rfl⟩ := hs.exists_cons hp hc (by decide)
    exact ⟨.none o ⟨c, hc⟩, by simp [Parameters.lexemes], by simp [Parameters.names], hrest⟩

/-! ### Statements, expressions and terms -/

/-- What the readers read with some fuel is derivable. -/
structure Sound (ending : Ending) (n : Nat) : Prop where
  statement : ∀ {ts rest : List Lexeme} {is : List Instruction}, Stands ending ts →
    (statement n).Reads ending ts is () rest →
    ∃ s : Stmt, ts = s.lexemes ++ rest ∧ is = s.code.instructions ∧ Stands ending rest
  expression : ∀ {ts rest : List Lexeme} {is : List Instruction}, Stands ending ts →
    (expression n).Reads ending ts is () rest →
    ∃ e : Expr, ts = e.lexemes ++ rest ∧ is = e.code.instructions ∧ Stands ending rest
  term : ∀ {ts rest : List Lexeme} {is : List Instruction}, Stands ending ts →
    (term n).Reads ending ts is () rest →
    ∃ a : Atom, ts = a.lexemes ++ rest ∧ is = a.code.instructions ∧ Stands ending rest
  statements : ∀ {ts rest : List Lexeme} {is : List Instruction}, Stands ending ts →
    (statements n).Reads ending ts is () rest →
    ∃ (b : Body) (c : Leaf .braceRight), ts = b.lexemes ++ c.val :: rest ∧
      is = Code.instructionsAll b.code ∧ Stands ending rest

lemma reads_statement_sound (hp : ending.Proper) (ih : Sound ending n) (hs : Stands ending ts)
    (h : (statement (n + 1)).Reads ending ts is () rest) :
    ∃ s : Stmt, ts = s.lexemes ++ rest ∧ is = s.code.instructions ∧ Stands ending rest := by
  rw [statement, reads_current_bind] at h
  split_ifs at h with hlet
  · obtain ⟨k, ls, hk, rfl⟩ := hs.exists_cons hp hlet (by decide)
    obtain ⟨hs₁, h⟩ := reads_advance_bind.1 h
    obtain ⟨hname, hs₂, h⟩ := reads_ident_bind.1 h
    obtain ⟨l, ls, hl, rfl⟩ := hs₁.exists_cons hp hname (by decide)
    dsimp only at h
    rw [reads_current_bind] at h
    split_ifs at h with hsign
    · obtain ⟨s, ls, hsg, rfl⟩ := exists_sign hs₂ hp hsign
      obtain ⟨hs₃, h⟩ := reads_advance_bind.1 h
      obtain ⟨_, _, _, _, hvalue, hdefine, rfl⟩ := reads_bind.1 h
      obtain ⟨v, rfl, rfl, hs₄⟩ := ih.expression hs₃ hvalue
      obtain ⟨rfl, rfl⟩ := reads_issue.1 hdefine
      refine ⟨.define ⟨k, hk⟩ ⟨l, hl⟩ s v, ?_, ?_, hs₄⟩
      · simp [Stmt.lexemes]
      · simp [Stmt.code, Code.instructions, currentOf]
    · obtain ⟨rfl, rfl⟩ := reads_issue.1 h
      exact ⟨.declare ⟨k, hk⟩ ⟨l, hl⟩, rfl, rfl, hs₂⟩
  · obtain ⟨e, rfl, rfl, hs₁⟩ := ih.expression hs h
    exact ⟨.expr e, rfl, rfl, hs₁⟩

lemma reads_expression_sound (hp : ending.Proper) (ih : Sound ending n) (hs : Stands ending ts)
    (h : (expression (n + 1)).Reads ending ts is () rest) :
    ∃ e : Expr, ts = e.lexemes ++ rest ∧ is = e.code.instructions ∧ Stands ending rest := by
  rw [expression] at h
  obtain ⟨_, _, _, _, hunary, h₁, rfl⟩ := reads_bind.1 h
  obtain ⟨-, rfl, rfl⟩ := reads_refuseUnary.1 hunary
  obtain ⟨_, _, _, _, hterm, h₂, rfl⟩ := reads_bind.1 h₁
  obtain ⟨a, rfl, rfl, hs₁⟩ := ih.term hs hterm
  obtain ⟨_, _, _, _, hsuffix, h₃, rfl⟩ := reads_bind.1 h₂
  obtain ⟨-, rfl, rfl⟩ := reads_refuseSuffix.1 hsuffix
  rw [reads_current_bind] at h₃
  split_ifs at h₃ with hsign
  · obtain ⟨s, ls, rfl⟩ := exists_sign hs₁ hp hsign
    obtain ⟨hs₂, h₃⟩ := reads_advance_bind.1 h₃
    obtain ⟨_, _, _, _, hvalue, hassign, rfl⟩ := reads_bind.1 h₃
    obtain ⟨v, hv, rfl, hs₃⟩ := ih.expression hs₂ hvalue
    obtain ⟨rfl, rfl⟩ := reads_issue.1 hassign
    rw [List.tail_cons] at hv
    refine ⟨.assign a s v, ?_, ?_, hs₃⟩
    · simp [Expr.lexemes, hv]
    · simp [Expr.code, Code.instructions]
  · obtain ⟨rfl, -, rfl⟩ := reads_pure.1 h₃
    exact ⟨.atom a, rfl, by simp [Expr.code], hs₁⟩

/-- A block in braces. -/
lemma reads_block_sound (hp : ending.Proper) (ih : Sound ending n) (hs : Stands ending ts)
    {i : Instruction} {expectation : String}
    (h : (do expect .braceLeft expectation; statements n; issue i : Grammar Unit).Reads ending ts is
      () rest) :
    ∃ (o : Leaf .braceLeft) (b : Body) (c : Leaf .braceRight),
      ts = o.val :: b.lexemes ++ c.val :: rest ∧ is = Code.instructionsAll b.code ++ [i] ∧
        Stands ending rest := by
  obtain ⟨hopen, hs₁, h⟩ := reads_expect_bind.1 h
  obtain ⟨o, ls, ho, rfl⟩ := hs.exists_cons hp hopen (by decide)
  obtain ⟨_, _, _, _, hbody, hclose, rfl⟩ := reads_bind.1 h
  obtain ⟨b, c, hb, rfl, hs₂⟩ := ih.statements hs₁ hbody
  obtain ⟨rfl, rfl⟩ := reads_issue.1 hclose
  rw [List.tail_cons] at hb
  exact ⟨⟨o, ho⟩, b, c, by simp [hb], by simp, hs₂⟩

/-- A term of one lexeme. -/
lemma reads_leaf_sound (hp : ending.Proper) (hs : Stands ending ts) {t : Token}
    (ht : (currentOf ending ts).token = t) (hne : t ≠ .eof) {i : Instruction}
    (h : (do issue i; advance : Grammar Unit).Reads ending ts is () rest) :
    ∃ l : Leaf t, ts = l.val :: rest ∧ is = [i] ∧ Stands ending rest := by
  obtain ⟨is, hnext, rfl⟩ := reads_issue_bind.1 h
  obtain ⟨rfl, rfl, hs₁⟩ := reads_advance.1 hnext
  obtain ⟨l, ls, hl, rfl⟩ := hs.exists_cons hp ht hne
  exact ⟨⟨l, hl⟩, rfl, rfl, hs₁⟩

lemma reads_term_sound (hp : ending.Proper) (ih : Sound ending n) (hs : Stands ending ts)
    (h : (term (n + 1)).Reads ending ts is () rest) :
    ∃ a : Atom, ts = a.lexemes ++ rest ∧ is = a.code.instructions ∧ Stands ending rest := by
  rw [term, reads_current_bind] at h
  split at h
  case h_1 ht =>
    obtain ⟨l, rfl, rfl, hs₁⟩ := reads_leaf_sound hp hs ht (by decide) h
    exact ⟨.constant ⟨l.val, .inl l.2⟩, rfl, rfl, hs₁⟩
  case h_2 ht =>
    obtain ⟨l, rfl, rfl, hs₁⟩ := reads_leaf_sound hp hs ht (by decide) h
    exact ⟨.constant ⟨l.val, .inr l.2⟩, rfl, rfl, hs₁⟩
  case h_3 ht =>
    obtain ⟨l, rfl, rfl, hs₁⟩ := reads_leaf_sound hp hs ht (by decide) h
    exact ⟨.name l, rfl, rfl, hs₁⟩
  case h_4 ht =>
    obtain ⟨o, ls, ho, rfl⟩ := hs.exists_cons hp ht (by decide)
    obtain ⟨hs₁, h⟩ := reads_advance_bind.1 h
    obtain ⟨_, _, _, _, hinner, hend, rfl⟩ := reads_bind.1 h
    obtain ⟨e, he, rfl, hs₂⟩ := ih.expression hs₁ hinner
    obtain ⟨hclose, hnext⟩ := reads_expect.1 hend
    obtain ⟨c, ls, hc, rfl⟩ := hs₂.exists_cons hp hclose (by decide)
    obtain ⟨rfl, rfl, hs₃⟩ := reads_advance.1 hnext
    rw [List.tail_cons] at he
    exact ⟨.group ⟨o, ho⟩ e ⟨c, hc⟩, by simp [Atom.lexemes, he], by simp [Atom.code], hs₃⟩
  case h_5 ht =>
    obtain ⟨k, ls, hk, rfl⟩ := hs.exists_cons hp ht (by decide)
    obtain ⟨hs₁, h⟩ := reads_advance_bind.1 h
    obtain ⟨is, hblock, rfl⟩ := reads_issue_bind.1 h
    obtain ⟨o, b, c, hb, rfl, hs₂⟩ := reads_block_sound hp ih hs₁ hblock
    rw [List.tail_cons] at hb
    exact ⟨.scope ⟨k, hk⟩ o b c, by simp [Atom.lexemes, hb],
      by simp [Atom.code, Code.instructions, currentOf], hs₂⟩
  case h_6 ht =>
    obtain ⟨k, ls, hk, rfl⟩ := hs.exists_cons hp ht (by decide)
    rw [reads_advance_bind, List.tail_cons] at h
    obtain ⟨hs₁, h⟩ := h
    obtain ⟨is, hbody, rfl⟩ := reads_issue_bind.1 h
    rw [reads_current_bind] at hbody
    dsimp only at hbody
    split_ifs at hbody with hparen
    · obtain ⟨o, ls, ho, rfl⟩ := hs₁.exists_cons hp hparen (by decide)
      obtain ⟨_, _, _, _, hparameters, hblock, rfl⟩ := reads_bind.1 hbody
      obtain ⟨ps, hps, rfl, hs₂⟩ := reads_parameters_sound (o := ⟨o, ho⟩) hp hparameters
      obtain ⟨o, b, c, rfl, rfl, hs₃⟩ := reads_block_sound hp ih hs₂ hblock
      dsimp only at hps
      exact ⟨.function ⟨k, hk⟩ ps o b c, by simp [Atom.lexemes, hps],
        by simp [Atom.code, Code.instructions, currentOf, parameterOf, parameterAt], hs₃⟩
    · obtain ⟨o, b, c, rfl, rfl, hs₃⟩ := reads_block_sound hp ih hs₁ hbody
      exact ⟨.function ⟨k, hk⟩ .absent o b c, by simp [Atom.lexemes, Parameters.lexemes],
        by simp [Atom.code, Code.instructions, currentOf, Parameters.names], hs₃⟩
  case h_7 => exact absurd h not_reads_unsupported
  case h_8 => exact absurd h not_reads_unsupported
  case h_9 =>
    split_ifs at h
    · exact absurd h not_reads_unsupported
    · exact absurd h not_reads_expected

lemma reads_statements_sound (hp : ending.Proper) (ih : Sound ending n) (hs : Stands ending ts)
    (h : (statements (n + 1)).Reads ending ts is () rest) :
    ∃ (b : Body) (c : Leaf .braceRight), ts = b.lexemes ++ c.val :: rest ∧
      is = Code.instructionsAll b.code ∧ Stands ending rest := by
  rw [statements] at h
  obtain ⟨_, _, mid, _, hbreaks, h₁, rfl⟩ := reads_bind.1 h
  obtain ⟨rfl, hmid, hs₁⟩ := (reads_skipBreaks hs).1 hbreaks
  obtain ⟨bs, hbs⟩ := exists_breaks ts
  rw [← hmid] at hbs
  rw [reads_current_bind] at h₁
  split_ifs at h₁ with hclose heof
  · obtain ⟨c, ls, hc, rfl⟩ := hs₁.exists_cons hp hclose (by decide)
    obtain ⟨rfl, rfl, hs₂⟩ := reads_advance.1 h₁
    exact ⟨.empty bs, ⟨c, hc⟩, hbs, rfl, hs₂⟩
  · exact absurd h₁ not_reads_expected
  · obtain ⟨_, _, _, _, hstmt, h₂, rfl⟩ := reads_bind.1 h₁
    obtain ⟨s, rfl, rfl, hs₂⟩ := ih.statement hs₁ hstmt
    obtain ⟨is, h₃, rfl⟩ := reads_issue_bind.1 h₂
    obtain ⟨_, _, _, _, hend, hmore, rfl⟩ := reads_bind.1 h₃
    obtain ⟨hbreak, hnext⟩ | ⟨-, hclosing, rfl, rfl⟩ := reads_endStatement.1 hend
    · obtain ⟨l, ls, hl, rfl⟩ := hs₂.exists_cons hp hbreak (by decide)
      obtain ⟨rfl, rfl, hs₃⟩ := reads_advance.1 hnext
      obtain ⟨b, c, hb, rfl, hs₄⟩ := ih.statements hs₃ hmore
      rw [List.tail_cons] at hb
      refine ⟨.filled bs s (b.after ⟨l, hl⟩), c, ?_, ?_, hs₄⟩
      · simp [hbs, hb, Body.lexemes]
      · simp [Body.code, Code.instructionsAll]
    · obtain ⟨b, c, hb, rfl, hs₃⟩ := ih.statements hs₂ hmore
      obtain ⟨l, ls, hl, rfl⟩ := hs₂.exists_cons hp hclosing (by decide)
      obtain rfl := Body.eq_empty hb.symm hl
      refine ⟨.filled bs s (.stop []), c, ?_, ?_, hs₃⟩
      · simp [hbs, hb, Body.lexemes, Tail.lexemes]
      · simp [Body.code, Tail.code, Code.instructionsAll]

/-- Whatever the readers read is derivable. -/
theorem sound (hp : ending.Proper) (n : Nat) : Sound ending n := by
  induction n with
  | zero =>
    constructor <;> intro ts rest is _ h <;> exact absurd h not_reads_expected
  | succ n ih =>
    exact ⟨reads_statement_sound hp ih, reads_expression_sound hp ih, reads_term_sound hp ih,
      reads_statements_sound hp ih⟩

end ScriptGraph.Grammar
