import ScriptGraph.Proofs.Reading.Soundness

/-!
# What is derivable is read

The readers accept the leaves of every phrase and issue the instructions of its code, if what
follows cannot be taken for a part of it. The induction is on the phrase. Fuel is bounded by the
number of leaves: no reader is entered a third time without a lexeme having been passed.
-/

namespace ScriptGraph.Grammar

open Phrase

variable {ending : Ending} {ts rest : List Lexeme} {is : List Instruction} {n : Nat}

/-! ### Steps -/

lemma Reads.bind {α β : Type} {g : Grammar α} {f : α → Grammar β} {x : α} {y : β}
    {mid : List Lexeme} {is₁ is₂ : List Instruction} (h₁ : g.Reads ending ts is₁ x mid)
    (h₂ : (f x).Reads ending mid is₂ y rest) (h : is = is₁ ++ is₂) :
    (g >>= f).Reads ending ts is y rest :=
  reads_bind.2 ⟨is₁, x, mid, is₂, h₁, h₂, h⟩

lemma reads_advance_cons {l : Lexeme} (hs : Stands ending ts) :
    advance.Reads ending (l :: ts) [] () ts := reads_advance.2 ⟨rfl, rfl, hs⟩

lemma reads_issue_self (i : Instruction) : (issue i).Reads ending ts [i] () ts :=
  reads_issue.2 ⟨rfl, rfl⟩

lemma reads_expect_cons {t : Token} {expectation : String} (l : Leaf t) (hs : Stands ending ts) :
    (expect t expectation).Reads ending (l.val :: ts) [] () ts :=
  reads_expect.2 ⟨l.2, reads_advance_cons hs⟩

lemma reads_ident_cons {expectation : String} (l : Leaf .ident) (hs : Stands ending ts) :
    (ident expectation).Reads ending (l.val :: ts) [] (l.val.name, l.val.location) ts :=
  reads_ident.2 ⟨l.2, reads_advance_cons hs, rfl⟩

/-- All line breaks in a row are passed over. -/
lemma reads_skipBreaks_append {bs : List (Leaf .breakLine)} (hs : Stands ending ts)
    (h : ∀ l ∈ ts.head?, l.token ≠ .breakLine) :
    skipBreaks.Reads ending (breakLexemes bs ++ ts) [] () ts := by
  have hdrop : ts = (breakLexemes bs ++ ts).dropWhile (fun t => t.token = .breakLine) := by
    induction bs with
    | nil =>
      cases ts with
      | nil => rfl
      | cons l ls => simp [h l (by simp)]
    | cons b bs ih =>
      simpa only [breakLexemes_cons, List.cons_append, List.dropWhile_cons, b.2, decide_true,
        if_true] using ih
  refine (reads_skipBreaks ?_).2 ⟨rfl, hdrop, hs⟩
  cases bs with
  | nil => exact hs
  | cons b bs => exact stands_cons _ _ _

/-! ### What may follow an expression -/

/-- Whether an expression ends before a lexeme. -/
def EndsBefore (l : Lexeme) : Prop :=
  l.token = .breakLine ∨ l.token = .parenRight ∨ l.token = .braceRight ∨ l.token = .eof

lemma EndsBefore.mayFollow {l : Lexeme} (h : EndsBefore l) : MayFollow l := by
  rcases h with h | h | h | h <;> simp [MayFollow, h, Token.isOperator]

lemma EndsBefore.not_isAssign {l : Lexeme} (h : EndsBefore l) : ¬l.isAssign = true := by
  rcases h with h | h | h | h <;> simp [Lexeme.isAssign, h]

lemma mayFollow_sign (s : Sign) : MayFollow s.val := by
  have h : s.val.token = .assign := by
    have := s.2
    simp only [Lexeme.isAssign, decide_eq_true_eq] at this
    exact this.1
  simp [MayFollow, h, s.2]

lemma endsBefore_tail (t : Tail) (c : Leaf .braceRight) :
    EndsBefore (currentOf ending (t.lexemes ++ c.val :: rest)) := by
  cases t with
  | stop bs =>
    cases bs with
    | nil => exact .inr (.inr (.inl c.2))
    | cons b bs => exact .inl b.2
  | next b bs s t => exact .inl b.2

/-! ### Parameters -/

lemma reads_parameterNames (f : Leaf .ident) (more : List (Leaf .comma × Leaf .ident))
    (c : Leaf .parenRight) (hn : more.length < n) :
    (parameterNames n).Reads ending (f.val :: moreLexemes more ++ c.val :: rest)
      ((f.val :: more.map fun p => p.2.val).map parameterAt) () (c.val :: rest) := by
  induction more generalizing f n with
  | nil =>
    obtain ⟨n, rfl⟩ := Nat.exists_eq_add_one_of_ne_zero (Nat.ne_zero_of_lt hn)
    rw [parameterNames]
    refine (reads_ident_cons f (stands_cons _ _ _)).bind ?_ rfl
    refine (reads_issue_self _).bind ?_ rfl
    rw [reads_current_bind]
    have hc : (currentOf ending (c.val :: rest)).token ≠ .comma := by simp [currentOf, c.2]
    rw [if_neg hc]
    exact reads_pure.2 ⟨rfl, rfl, rfl⟩
  | cons p more ih =>
    obtain ⟨n, rfl⟩ := Nat.exists_eq_add_one_of_ne_zero (Nat.ne_zero_of_lt hn)
    rw [parameterNames]
    simp only [moreLexemes_cons, List.cons_append]
    refine (reads_ident_cons f (stands_cons _ _ _)).bind ?_ rfl
    refine (reads_issue_self _).bind ?_ rfl
    have hc : (currentOf ending (p.1.val :: p.2.val :: (moreLexemes more ++ c.val :: rest))).token =
        .comma := p.1.2
    rw [reads_current_bind, if_pos hc]
    refine (reads_advance_cons (stands_cons _ _ _)).bind ?_ rfl
    exact ih p.2 (by simpa using hn)

lemma length_moreLexemes (more : List (Leaf .comma × Leaf .ident)) :
    (moreLexemes more).length = 2 * more.length := by
  induction more with
  | nil => rfl
  | cons p more ih =>
    rw [moreLexemes_cons, List.length_cons, List.length_cons, ih, List.length_cons]
    omega

/-- Parameters are read where they stand in parentheses. -/
lemma reads_parameters (ps : Parameters) (hps : ps ≠ .absent) (hn : ps.lexemes.length < n)
    (hs : Stands ending rest) :
    (parameters n).Reads ending (ps.lexemes ++ rest) (ps.names.map parameterAt) () rest := by
  rw [parameters]
  cases ps with
  | absent => exact absurd rfl hps
  | none o c =>
    simp only [Parameters.lexemes, List.cons_append, List.nil_append]
    refine (reads_advance_cons (stands_cons _ _ _)).bind ?_ rfl
    rw [reads_current_bind]
    have hc : ¬(currentOf ending (c.val :: rest)).token ≠ .parenRight := by simp [currentOf, c.2]
    rw [if_neg hc]
    exact reads_expect_cons c hs
  | some o f more c =>
    have hlen : more.length < n := by
      simp only [Parameters.lexemes, List.length_append, List.length_cons, List.length_nil,
        length_moreLexemes] at hn
      omega
    have hnames : (parameterNames n).Reads ending (f.val :: moreLexemes more ++ c.val :: rest)
        (Parameters.some o f more c |>.names.map parameterAt) () (c.val :: rest) :=
      reads_parameterNames f more c hlen
    simp only [Parameters.lexemes, List.cons_append, List.append_assoc, List.nil_append] at hnames ⊢
    refine (reads_advance_cons (stands_cons _ _ _)).bind ?_ rfl
    rw [reads_current_bind]
    have hf :
        (currentOf ending (f.val :: (moreLexemes more ++ c.val :: rest))).token ≠ .parenRight := by
      simp [currentOf, f.2]
    rw [if_pos hf]
    exact hnames.bind (reads_expect_cons c hs) (List.append_nil _).symm

/-! ### Statements, expressions and terms -/

lemma startsTerm_current (ending : Ending) (e : Expr) (ts : List Lexeme) :
    StartsTerm (currentOf ending (e.lexemes ++ ts)).token := by
  obtain ⟨l, ls, he, hl⟩ := e.exists_cons
  rw [he]
  exact hl

/-- The current lexeme at a statement closes nothing. -/
lemma current_stmt_ne (ending : Ending) (s : Stmt) (ts : List Lexeme) :
    (currentOf ending (s.lexemes ++ ts)).token ≠ .braceRight ∧
      (currentOf ending (s.lexemes ++ ts)).token ≠ .eof := by
  obtain ⟨l, ls, hs, hl⟩ := s.exists_cons
  rw [hs]
  change l.token ≠ .braceRight ∧ l.token ≠ .eof
  constructor <;> rintro h <;> simp [StartsStmt, StartsTerm, h] at hl

lemma isOperator_of_startsTerm {t : Token} (h : StartsTerm t) : t.isOperator = false := by
  rcases h with rfl | rfl | rfl | rfl | rfl | rfl <;> rfl

/-- A block in braces is read if its statements are. -/
lemma reads_block {o : Leaf .braceLeft} {b : Body} {c : Leaf .braceRight} {i : Instruction}
    {expectation : String}
    (h : (statements n).Reads ending (b.lexemes ++ c.val :: rest) (Code.instructionsAll b.code) ()
      rest) :
    (do expect .braceLeft expectation; statements n; issue i : Grammar Unit).Reads ending
      (o.val :: (b.lexemes ++ c.val :: rest)) (Code.instructionsAll b.code ++ [i]) () rest :=
  (reads_expect_cons o ((stands_cons _ _ _).append _)).bind (h.bind (reads_issue_self i) rfl) rfl

lemma reads_endStatement_cons {closing : Token} (b : Leaf .breakLine) (hs : Stands ending ts) :
    (endStatement closing).Reads ending (b.val :: ts) [] () ts :=
  reads_endStatement.2 (.inl ⟨b.2, reads_advance_cons hs⟩)

lemma reads_statements_empty (bs : List (Leaf .breakLine)) (c : Leaf .braceRight)
    (hs : Stands ending rest) :
    (statements (n + 1)).Reads ending (breakLexemes bs ++ c.val :: rest) [] () rest := by
  rw [statements]
  refine (reads_skipBreaks_append (stands_cons _ _ _) (by simp [c.2])).bind ?_ rfl
  have hc : (currentOf ending (c.val :: rest)).token = .braceRight := c.2
  rw [reads_current_bind, if_pos hc]
  exact reads_advance_cons hs

/-- Statements are read if the first one and those that follow are. -/
lemma reads_statements_filled (bs : List (Leaf .breakLine)) {s : Stmt} {is₁ is₂ : List Instruction}
    (hstmt : (statement n).Reads ending (s.lexemes ++ ts) is₁ () ts)
    (htail : (do endStatement .braceRight; statements n : Grammar Unit).Reads ending ts is₂ ()
      rest) :
    (statements (n + 1)).Reads ending (breakLexemes bs ++ (s.lexemes ++ ts))
      (is₁ ++ .statement :: is₂) () rest := by
  have hbreak : ∀ l ∈ (s.lexemes ++ ts).head?, l.token ≠ .breakLine :=
    fun l hl => (s.head_ne _ l hl).1
  have hs : Stands ending (s.lexemes ++ ts) := by
    obtain ⟨l, ls, hs, -⟩ := s.exists_cons
    rw [hs]
    exact stands_cons _ _ _
  rw [statements]
  refine (reads_skipBreaks_append hs hbreak).bind ?_ rfl
  obtain ⟨hclose, heof⟩ := current_stmt_ne ending s ts
  rw [reads_current_bind, if_neg hclose, if_neg heof]
  exact hstmt.bind ((reads_issue_self _).bind htail rfl) rfl

mutual

theorem reads_term (a : Atom) {n : Nat} {rest : List Lexeme} (hn : 2 * a.lexemes.length ≤ n + 1)
    (hs : Stands ending rest) :
    (term n).Reads ending (a.lexemes ++ rest) a.code.instructions () rest := by
  obtain ⟨n, rfl⟩ : ∃ k, n = k + 1 := by
    obtain ⟨l, ls, ha, -⟩ := a.exists_cons
    rw [ha, List.length_cons] at hn
    exact ⟨n - 1, by omega⟩
  rw [term, reads_current_bind]
  match a with
  | .constant l =>
    rcases l.2 with hl | hl
    · simp only [Atom.lexemes, List.cons_append, List.nil_append, currentOf, List.headD_cons, hl]
      exact (reads_issue_self _).bind (reads_advance_cons hs) rfl
    · simp only [Atom.lexemes, List.cons_append, List.nil_append, currentOf, List.headD_cons, hl]
      exact (reads_issue_self _).bind (reads_advance_cons hs) rfl
  | .name l =>
    simp only [Atom.lexemes, List.cons_append, List.nil_append, currentOf, List.headD_cons, l.2]
    exact (reads_issue_self _).bind (reads_advance_cons hs) rfl
  | .group o e c =>
    simp only [Atom.lexemes, List.cons_append, List.append_assoc, List.nil_append, currentOf,
      List.headD_cons, o.2]
    simp only [Atom.lexemes, List.length_cons, List.length_append] at hn
    have he : (expression n).Reads ending (e.lexemes ++ c.val :: rest) e.code.instructions ()
        (c.val :: rest) :=
      reads_expression e (by omega) (stands_cons _ _ _) (.inr (.inl c.2))
    refine (reads_advance_cons ((stands_cons _ _ _).append _)).bind ?_ rfl
    exact he.bind (reads_expect_cons c hs) (List.append_nil _).symm
  | .scope k o b c =>
    simp only [Atom.lexemes, List.cons_append, List.append_assoc, List.nil_append, currentOf,
      List.headD_cons, k.2]
    simp only [Atom.lexemes, List.length_cons, List.length_append] at hn
    have hb : (statements n).Reads ending (b.lexemes ++ c.val :: rest)
        (Code.instructionsAll b.code) () rest :=
      reads_statements b c (by omega) hs
    refine (reads_advance_cons (stands_cons _ _ _)).bind ?_ rfl
    exact (reads_issue_self _).bind (reads_block hb) rfl
  | .function k ps o b c =>
    simp only [Atom.lexemes, List.cons_append, List.append_assoc, List.nil_append, currentOf,
      List.headD_cons, k.2]
    simp only [Atom.lexemes, List.length_cons, List.length_append] at hn
    have hb : (statements n).Reads ending (b.lexemes ++ c.val :: rest)
        (Code.instructionsAll b.code) () rest :=
      reads_statements b c (by omega) hs
    refine (reads_advance_cons ((stands_cons _ _ _).append _)).bind ?_ rfl
    refine (reads_issue_self _).bind ?_ rfl
    rw [reads_current_bind]
    by_cases hps : ps = .absent
    · subst hps
      have ho : ¬(currentOf ending
          (Parameters.absent.lexemes ++ o.val :: (b.lexemes ++ c.val :: rest))).token =
            .parenLeft := by
        simp [Parameters.lexemes, currentOf, o.2]
      rw [if_neg ho]
      exact reads_block hb
    · have ho : (currentOf ending (ps.lexemes ++ o.val :: (b.lexemes ++ c.val :: rest))).token =
          .parenLeft := by
        cases ps with
        | absent => exact absurd rfl hps
        | none o' c' => exact o'.2
        | some o' f more c' => exact o'.2
      rw [if_pos ho]
      refine (reads_parameters ps hps (by omega) (stands_cons _ _ _)).bind (reads_block hb) ?_
      simp [parameterOf, parameterAt]

theorem reads_expression (e : Expr) {n : Nat} {rest : List Lexeme} (hn : 2 * e.lexemes.length ≤ n)
    (hs : Stands ending rest) (hf : EndsBefore (currentOf ending rest)) :
    (expression n).Reads ending (e.lexemes ++ rest) e.code.instructions () rest := by
  obtain ⟨n, rfl⟩ : ∃ k, n = k + 1 := by
    obtain ⟨l, ls, he, -⟩ := e.exists_cons
    rw [he, List.length_cons] at hn
    exact ⟨n - 1, by omega⟩
  rw [expression]
  have hunary : refuseUnary.Reads ending (e.lexemes ++ rest) [] () (e.lexemes ++ rest) :=
    reads_refuseUnary.2 ⟨isOperator_of_startsTerm (startsTerm_current _ e _), rfl, rfl⟩
  refine hunary.bind ?_ rfl
  match e with
  | .atom a =>
    refine (reads_term a hn hs).bind ?_ (List.append_nil _).symm
    have hsuffix : refuseSuffix.Reads ending rest [] () rest :=
      reads_refuseSuffix.2 ⟨hf.mayFollow, rfl, rfl⟩
    refine hsuffix.bind ?_ rfl
    rw [reads_current_bind, if_neg hf.not_isAssign]
    exact reads_pure.2 ⟨rfl, rfl, rfl⟩
  | .assign t s v =>
    simp only [Expr.lexemes, List.append_assoc, List.cons_append]
    simp only [Expr.lexemes, List.length_append, List.length_cons] at hn
    have hv := reads_expression v (n := n) (by omega) hs hf
    refine (reads_term t (by omega) (stands_cons _ _ _)).bind ?_ (List.append_assoc _ _ _)
    have hsuffix : refuseSuffix.Reads ending (s.val :: (v.lexemes ++ rest)) [] ()
        (s.val :: (v.lexemes ++ rest)) := reads_refuseSuffix.2 ⟨mayFollow_sign s, rfl, rfl⟩
    refine hsuffix.bind ?_ rfl
    have hsign : (currentOf ending (s.val :: (v.lexemes ++ rest))).isAssign = true := s.2
    rw [reads_current_bind, if_pos hsign]
    refine (reads_advance_cons (hs.append _)).bind ?_ rfl
    exact hv.bind (reads_issue_self _) rfl

theorem reads_statement (s : Stmt) {n : Nat} {rest : List Lexeme}
    (hn : 2 * s.lexemes.length + 1 ≤ n) (hs : Stands ending rest)
    (hf : EndsBefore (currentOf ending rest)) :
    (statement n).Reads ending (s.lexemes ++ rest) s.code.instructions () rest := by
  obtain ⟨n, rfl⟩ : ∃ k, n = k + 1 := ⟨n - 1, by omega⟩
  rw [statement, reads_current_bind]
  match s with
  | .declare k l =>
    have hk : (currentOf ending ((Stmt.declare k l).lexemes ++ rest)).token = .kwLet := k.2
    rw [if_pos hk]
    refine (reads_advance_cons (stands_cons _ _ _)).bind ?_ rfl
    refine (reads_ident_cons l hs).bind ?_ rfl
    rw [reads_current_bind, if_neg hf.not_isAssign]
    exact reads_issue_self _
  | .define k l s v =>
    simp only [Stmt.lexemes, List.length_cons] at hn
    have hk : (currentOf ending ((Stmt.define k l s v).lexemes ++ rest)).token = .kwLet := k.2
    rw [if_pos hk]
    simp only [Stmt.lexemes, List.cons_append]
    refine (reads_advance_cons (stands_cons _ _ _)).bind ?_ rfl
    refine (reads_ident_cons l (stands_cons _ _ _)).bind ?_ rfl
    have hsign : (currentOf ending (s.val :: (v.lexemes ++ rest))).isAssign = true := s.2
    rw [reads_current_bind, if_pos hsign]
    refine (reads_advance_cons (hs.append _)).bind ?_ rfl
    exact (reads_expression v (by omega) hs hf).bind (reads_issue_self _) rfl
  | .expr e =>
    have hk : ¬(currentOf ending ((Stmt.expr e).lexemes ++ rest)).token = .kwLet := by
      intro h
      have := startsTerm_current ending e rest
      rw [show e.lexemes = (Stmt.expr e).lexemes from rfl, h] at this
      simp [StartsTerm] at this
    rw [if_neg hk]
    simp only [Stmt.lexemes] at hn
    exact reads_expression e (by omega) hs hf

theorem reads_statements (b : Body) (c : Leaf .braceRight) {n : Nat} {rest : List Lexeme}
    (hn : 2 * b.lexemes.length + 2 ≤ n) (hs : Stands ending rest) :
    (statements n).Reads ending (b.lexemes ++ c.val :: rest) (Code.instructionsAll b.code) ()
      rest := by
  obtain ⟨n, rfl⟩ : ∃ k, n = k + 1 := ⟨n - 1, by omega⟩
  match b with
  | .empty bs => exact reads_statements_empty bs c hs
  | .filled bs s t =>
    simp only [Body.lexemes, List.length_append] at hn
    have hs' : Stands ending (t.lexemes ++ c.val :: rest) := (stands_cons _ _ _).append _
    have hstmt := reads_statement s (n := n) (by omega) hs' (endsBefore_tail t c)
    have h := reads_statements_filled bs hstmt (reads_tail t c (by omega) hs)
    simpa only [Body.lexemes, Body.code, Code.instructionsAll, List.append_assoc] using h

theorem reads_tail (t : Tail) (c : Leaf .braceRight) {n : Nat} {rest : List Lexeme}
    (hn : 2 * t.lexemes.length + 1 ≤ n) (hs : Stands ending rest) :
    (do endStatement .braceRight; statements n : Grammar Unit).Reads ending
      (t.lexemes ++ c.val :: rest) (Code.instructionsAll t.code) () rest := by
  obtain ⟨n, rfl⟩ : ∃ k, n = k + 1 := ⟨n - 1, by omega⟩
  match t with
  | .stop [] =>
    have hend : (endStatement .braceRight).Reads ending (c.val :: rest) [] () (c.val :: rest) :=
      reads_endStatement.2 (.inr ⟨by simp [currentOf, c.2], c.2, rfl, rfl⟩)
    exact hend.bind (reads_statements_empty [] c hs) rfl
  | .stop (b :: bs) =>
    refine (reads_endStatement_cons b ((stands_cons _ _ _).append _)).bind ?_ rfl
    exact reads_statements_empty bs c hs
  | .next b bs s t =>
    simp only [Tail.lexemes, List.cons_append, List.length_cons, List.length_append] at hn
    have hs' : Stands ending (t.lexemes ++ c.val :: rest) := (stands_cons _ _ _).append _
    have hstmt := reads_statement s (n := n) (by omega) hs' (endsBefore_tail t c)
    have h := reads_statements_filled bs hstmt (reads_tail t c (by omega) hs)
    simp only [Tail.lexemes, List.cons_append, List.append_assoc]
    exact (reads_endStatement_cons b ((hs'.append _).append _)).bind h rfl

end

end ScriptGraph.Grammar
