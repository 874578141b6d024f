import ScriptGraph.Proofs.Phrase

/-!
# The grammar is unambiguous

Two derivations with the same leaves are the same. A term ends by itself; an expression ends before
anything but an assignment sign, and the statements of a block end before anything that is neither a
line break nor the start of a statement. So the statements below say of two trees, each followed by
something that cannot go on, that they and what follows are the same.
-/

namespace ScriptGraph.Phrase

/-- Lexemes of different kinds are different. -/
lemma val_ne {t t' : Token} (l : Leaf t) (l' : Leaf t') (h : t ≠ t') : l.val ≠ l'.val :=
  fun e => h (l.2.symm.trans ((congrArg Lexeme.token e).trans l'.2))

/-! ### First lexemes -/

/-- Whether a token starts a term. -/
def StartsTerm (t : Token) : Prop :=
  t = .number ∨ t = .string ∨ t = .ident ∨ t = .parenLeft ∨ t = .kwDo ∨ t = .kwFun

/-- Whether a token starts a statement. -/
def StartsStmt (t : Token) : Prop := t = .kwLet ∨ StartsTerm t

lemma Atom.exists_cons (a : Atom) : ∃ l ls, a.lexemes = l :: ls ∧ StartsTerm l.token := by
  cases a with
  | constant l =>
    refine ⟨l.val, [], rfl, ?_⟩
    rcases l.2 with h | h <;> simp [StartsTerm, h]
  | name l => exact ⟨l.val, [], rfl, by simp [StartsTerm, l.2]⟩
  | group o e c => exact ⟨o.val, _, rfl, by simp [StartsTerm, o.2]⟩
  | scope k o b c => exact ⟨k.val, _, rfl, by simp [StartsTerm, k.2]⟩
  | function k ps o b c => exact ⟨k.val, _, rfl, by simp [StartsTerm, k.2]⟩

lemma Expr.exists_cons (e : Expr) : ∃ l ls, e.lexemes = l :: ls ∧ StartsTerm l.token := by
  cases e with
  | atom a => exact a.exists_cons
  | assign a s v =>
    obtain ⟨l, ls, h, hl⟩ := a.exists_cons
    exact ⟨l, ls ++ s.val :: v.lexemes, by simp [Expr.lexemes, h], hl⟩

lemma Stmt.exists_cons (s : Stmt) : ∃ l ls, s.lexemes = l :: ls ∧ StartsStmt l.token := by
  cases s with
  | declare k n => exact ⟨k.val, _, rfl, .inl k.2⟩
  | define k n s v => exact ⟨k.val, _, rfl, .inl k.2⟩
  | expr e =>
    obtain ⟨l, ls, h, hl⟩ := e.exists_cons
    exact ⟨l, ls, h, .inr hl⟩

/-! ### What may follow -/

/-- Whether the lexemes do not start with an assignment sign. -/
def NoSign (ls : List Lexeme) : Prop := ∀ l ∈ ls.head?, l.isAssign = false

/-- Whether the lexemes start with nothing or with what closes a block. -/
def Closed (ls : List Lexeme) : Prop := ∀ l ∈ ls.head?, l.token = .braceRight

lemma noSign_of_token {l : Lexeme} {ls : List Lexeme} (h : l.token ≠ .assign) :
    NoSign (l :: ls) := by
  simp [NoSign, Lexeme.isAssign, h]

lemma Closed.noSign {ls : List Lexeme} (h : Closed ls) : NoSign ls := by
  intro l hl
  simp [Lexeme.isAssign, h l hl]

lemma Tail.noSign (t : Tail) {ls : List Lexeme} (h : Closed ls) : NoSign (t.lexemes ++ ls) := by
  cases t with
  | stop bs =>
    cases bs with
    | nil => simpa [Tail.lexemes] using h.noSign
    | cons b bs => exact noSign_of_token (by simp [b.2])
  | next b bs s t =>
    simp only [Tail.lexemes, List.cons_append]
    exact noSign_of_token (by simp [b.2])

/-! ### Line breaks and parameters -/

/-- Line breaks before something else are all the line breaks there. -/
lemma breakLexemes_unique {bs bs' : List (Leaf .breakLine)} {ls ls' : List Lexeme}
    (h : breakLexemes bs ++ ls = breakLexemes bs' ++ ls')
    (hls : ∀ l ∈ ls.head?, l.token ≠ .breakLine) (hls' : ∀ l ∈ ls'.head?, l.token ≠ .breakLine) :
    bs = bs' ∧ ls = ls' := by
  induction bs generalizing bs' with
  | nil =>
    cases bs' with
    | nil => exact ⟨rfl, h⟩
    | cons b' bs' =>
      simp only [breakLexemes_nil, List.nil_append, breakLexemes_cons, List.cons_append] at h
      exact absurd b'.2 (hls b'.val (by simp [h]))
  | cons b bs ih =>
    cases bs' with
    | nil =>
      simp only [breakLexemes_nil, List.nil_append, breakLexemes_cons, List.cons_append] at h
      exact absurd b.2 (hls' b.val (by simp [← h]))
    | cons b' bs' =>
      simp only [breakLexemes_cons, List.cons_append, List.cons.injEq] at h
      obtain ⟨rfl, rfl⟩ := ih h.2
      exact ⟨by rw [Subtype.ext h.1], rfl⟩

lemma moreLexemes_unique {more more' : List (Leaf .comma × Leaf .ident)}
    {c c' : Leaf .parenRight} {ls ls' : List Lexeme}
    (h : moreLexemes more ++ c.val :: ls = moreLexemes more' ++ c'.val :: ls') :
    more = more' ∧ c = c' ∧ ls = ls' := by
  induction more generalizing more' with
  | nil =>
    cases more' with
    | nil =>
      simp only [moreLexemes_nil, List.nil_append, List.cons.injEq] at h
      exact ⟨rfl, Subtype.ext h.1, h.2⟩
    | cons p more' =>
      simp only [moreLexemes_nil, moreLexemes_cons, List.nil_append, List.cons_append,
        List.cons.injEq] at h
      exact absurd h.1 (val_ne c p.1 (by decide))
  | cons p more ih =>
    cases more' with
    | nil =>
      simp only [moreLexemes_nil, moreLexemes_cons, List.nil_append, List.cons_append,
        List.cons.injEq] at h
      exact absurd h.1 (val_ne p.1 c' (by decide))
    | cons p' more' =>
      simp only [moreLexemes_cons, List.cons_append, List.cons.injEq] at h
      obtain ⟨rfl, rfl, rfl⟩ := ih h.2.2
      exact ⟨by rw [Prod.ext (Subtype.ext h.1) (Subtype.ext h.2.1)], rfl, rfl⟩

lemma Parameters.unique {ps ps' : Parameters} {o o' : Leaf .braceLeft} {ls ls' : List Lexeme}
    (h : ps.lexemes ++ o.val :: ls = ps'.lexemes ++ o'.val :: ls') :
    ps = ps' ∧ o = o' ∧ ls = ls' := by
  cases ps <;> cases ps' <;>
    simp only [Parameters.lexemes, List.nil_append, List.cons_append, List.append_assoc,
      List.cons.injEq] at h
  case absent.absent => exact ⟨rfl, Subtype.ext h.1, h.2⟩
  case none.none o₁ c₁ o₂ c₂ =>
    exact ⟨by rw [Subtype.ext h.1, Subtype.ext h.2.1], Subtype.ext h.2.2.1, h.2.2.2⟩
  case some.some o₁ f₁ m₁ c₁ o₂ f₂ m₂ c₂ =>
    obtain ⟨hm, hc, hls⟩ := moreLexemes_unique h.2.2
    rw [List.cons.injEq] at hls
    exact ⟨by rw [Subtype.ext h.1, Subtype.ext h.2.1, hm, hc], Subtype.ext hls.1, hls.2⟩
  case absent.none o₂ c₂ => exact absurd h.1 (val_ne o o₂ (by decide))
  case absent.some o₂ f₂ m₂ c₂ => exact absurd h.1 (val_ne o o₂ (by decide))
  case none.absent o₁ c₁ => exact absurd h.1 (val_ne o₁ o' (by decide))
  case some.absent o₁ f₁ m₁ c₁ => exact absurd h.1 (val_ne o₁ o' (by decide))
  case none.some o₁ c₁ o₂ f₂ m₂ c₂ => exact absurd h.2.1 (val_ne c₁ f₂ (by decide))
  case some.none o₁ f₁ m₁ c₁ o₂ c₂ => exact absurd h.2.1 (val_ne f₁ c₂ (by decide))

/-! ### Trees -/

/-- A statement is neither a line break nor the end of a block. -/
lemma Stmt.head_ne (s : Stmt) (ls : List Lexeme) :
    ∀ l ∈ (s.lexemes ++ ls).head?, l.token ≠ .breakLine ∧ l.token ≠ .braceRight := by
  obtain ⟨l, ls', hs, hl⟩ := s.exists_cons
  intro l' hl'
  simp only [hs, List.cons_append, List.head?_cons, Option.mem_def, Option.some.injEq] at hl'
  subst hl'
  constructor <;> (rintro h; simp [StartsStmt, StartsTerm, h] at hl)

lemma Closed.head_ne {ls : List Lexeme} (h : Closed ls) :
    ∀ l ∈ ls.head?, l.token ≠ .breakLine := by
  intro l hl
  simp [h l hl]

/-- What closes a block does not start a statement. -/
lemma Closed.ne_stmt {ls ls' : List Lexeme} (h : Closed ls) (s : Stmt) : ls ≠ s.lexemes ++ ls' := by
  rintro rfl
  obtain ⟨l, ls, hs, -⟩ := s.exists_cons
  have hl : l ∈ (s.lexemes ++ ls').head? := by simp [hs]
  exact (s.head_ne ls' l hl).2 (h l hl)

/-- Statements that start with the end of their block are none. -/
lemma Body.eq_empty {b : Body} {ls ls' : List Lexeme} {l : Lexeme}
    (h : b.lexemes ++ ls = l :: ls') (hl : l.token = .braceRight) : b = .empty [] := by
  cases b with
  | empty bs =>
    cases bs with
    | nil => rfl
    | cons b bs =>
      simp only [Body.lexemes, breakLexemes_cons, List.cons_append, List.cons.injEq] at h
      exact absurd h.1 (val_ne b (⟨l, hl⟩ : Leaf .braceRight) (by decide))
  | filled bs s t =>
    cases bs with
    | nil =>
      simp only [Body.lexemes, breakLexemes_nil, List.nil_append, List.append_assoc] at h
      have hmem : l ∈ (s.lexemes ++ (t.lexemes ++ ls)).head? := by rw [h]; rfl
      exact absurd hl (s.head_ne _ l hmem).2
    | cons b bs =>
      simp only [Body.lexemes, breakLexemes_cons, List.cons_append, List.cons.injEq] at h
      exact absurd h.1 (val_ne b (⟨l, hl⟩ : Leaf .braceRight) (by decide))

/-- An expression does not start with `let`. -/
lemma Expr.head_ne_let (e : Expr) (k : Leaf .kwLet) (ls ls' : List Lexeme) :
    e.lexemes ++ ls ≠ k.val :: ls' := by
  intro h
  obtain ⟨l, ls, he, hl⟩ := e.exists_cons
  rw [he, List.cons_append, List.cons.injEq] at h
  rw [h.1, k.2] at hl
  simp [StartsTerm] at hl

lemma NoSign.ne_sign {ls ls' : List Lexeme} (h : NoSign ls) (s : Sign) : ls ≠ s.val :: ls' := by
  rintro rfl
  have := h s.val (by simp)
  simp [s.2] at this

mutual

theorem Atom.unique (a a' : Atom) {ls ls' : List Lexeme} (h : a.lexemes ++ ls = a'.lexemes ++ ls') :
    a = a' ∧ ls = ls' := by
  match a, a' with
  | .constant l, .constant l' =>
    simp only [Atom.lexemes, List.cons_append, List.nil_append, List.cons.injEq] at h
    exact ⟨by rw [Subtype.ext h.1], h.2⟩
  | .name l, .name l' =>
    simp only [Atom.lexemes, List.cons_append, List.nil_append, List.cons.injEq] at h
    exact ⟨by rw [Subtype.ext h.1], h.2⟩
  | .group o e c, .group o' e' c' =>
    simp only [Atom.lexemes, List.cons_append, List.append_assoc, List.nil_append,
      List.cons.injEq] at h
    obtain ⟨he, hc⟩ := Expr.unique e e' h.2 (noSign_of_token (by simp [c.2]))
      (noSign_of_token (by simp [c'.2]))
    rw [List.cons.injEq] at hc
    exact ⟨by rw [Subtype.ext h.1, he, Subtype.ext hc.1], hc.2⟩
  | .scope k o b c, .scope k' o' b' c' =>
    simp only [Atom.lexemes, List.cons_append, List.append_assoc, List.nil_append,
      List.cons.injEq] at h
    obtain ⟨hb, hc⟩ := Body.unique b b' h.2.2 (by simp [Closed, c.2]) (by simp [Closed, c'.2])
    rw [List.cons.injEq] at hc
    exact ⟨by rw [Subtype.ext h.1, Subtype.ext h.2.1, hb, Subtype.ext hc.1], hc.2⟩
  | .function k ps o b c, .function k' ps' o' b' c' =>
    simp only [Atom.lexemes, List.cons_append, List.append_assoc, List.nil_append,
      List.cons.injEq] at h
    obtain ⟨hps, ho, hb⟩ := Parameters.unique h.2
    obtain ⟨hb, hc⟩ := Body.unique b b' hb (by simp [Closed, c.2]) (by simp [Closed, c'.2])
    rw [List.cons.injEq] at hc
    exact ⟨by rw [Subtype.ext h.1, hps, ho, hb, Subtype.ext hc.1], hc.2⟩
  | .constant l, .name l' | .constant l, .group l' _ _ | .constant l, .scope l' _ _ _
  | .constant l, .function l' _ _ _ _ =>
    simp only [Atom.lexemes, List.cons_append, List.cons.injEq] at h
    rcases l.2 with hl | hl <;> simp [h.1, l'.2] at hl
  | .name l', .constant l | .group l' _ _, .constant l | .scope l' _ _ _, .constant l
  | .function l' _ _ _ _, .constant l =>
    simp only [Atom.lexemes, List.cons_append, List.cons.injEq] at h
    rcases l.2 with hl | hl <;> simp [← h.1, l'.2] at hl
  | .name l, .group l' _ _ | .name l, .scope l' _ _ _ | .name l, .function l' _ _ _ _
  | .group l _ _, .name l' | .group l _ _, .scope l' _ _ _ | .group l _ _, .function l' _ _ _ _
  | .scope l _ _ _, .name l' | .scope l _ _ _, .group l' _ _
  | .scope l _ _ _, .function l' _ _ _ _ | .function l _ _ _ _, .name l'
  | .function l _ _ _ _, .group l' _ _ | .function l _ _ _ _, .scope l' _ _ _ =>
    simp only [Atom.lexemes, List.cons_append, List.cons.injEq] at h
    exact absurd h.1 (val_ne l l' (by decide))

theorem Expr.unique (e e' : Expr) {ls ls' : List Lexeme} (h : e.lexemes ++ ls = e'.lexemes ++ ls')
    (hls : NoSign ls) (hls' : NoSign ls') : e = e' ∧ ls = ls' := by
  match e, e' with
  | .atom a, .atom a' =>
    obtain ⟨rfl, hr⟩ := Atom.unique a a' h
    exact ⟨rfl, hr⟩
  | .atom a, .assign a' s v =>
    simp only [Expr.lexemes, List.append_assoc, List.cons_append] at h
    obtain ⟨-, h⟩ := Atom.unique a a' h
    exact absurd h (hls.ne_sign s)
  | .assign a s v, .atom a' =>
    simp only [Expr.lexemes, List.append_assoc, List.cons_append] at h
    obtain ⟨-, h⟩ := Atom.unique a a' h
    exact absurd h.symm (hls'.ne_sign s)
  | .assign a s v, .assign a' s' v' =>
    simp only [Expr.lexemes, List.append_assoc, List.cons_append] at h
    obtain ⟨rfl, hr⟩ := Atom.unique a a' h
    rw [List.cons.injEq] at hr
    obtain ⟨rfl, hv⟩ := Expr.unique v v' hr.2 hls hls'
    exact ⟨by rw [Subtype.ext hr.1], hv⟩

theorem Stmt.unique (s s' : Stmt) {ls ls' : List Lexeme} (h : s.lexemes ++ ls = s'.lexemes ++ ls')
    (hls : NoSign ls) (hls' : NoSign ls') : s = s' ∧ ls = ls' := by
  match s, s' with
  | .declare k n, .declare k' n' =>
    simp only [Stmt.lexemes, List.cons_append, List.nil_append, List.cons.injEq] at h
    exact ⟨by rw [Subtype.ext h.1, Subtype.ext h.2.1], h.2.2⟩
  | .define k n s v, .define k' n' s' v' =>
    simp only [Stmt.lexemes, List.cons_append, List.cons.injEq] at h
    obtain ⟨rfl, hv⟩ := Expr.unique v v' h.2.2.2 hls hls'
    exact ⟨by rw [Subtype.ext h.1, Subtype.ext h.2.1, Subtype.ext h.2.2.1], hv⟩
  | .expr e, .expr e' =>
    obtain ⟨rfl, hr⟩ := Expr.unique e e' h hls hls'
    exact ⟨rfl, hr⟩
  | .declare k n, .define k' n' s' v' =>
    simp only [Stmt.lexemes, List.cons_append, List.nil_append, List.cons.injEq] at h
    exact absurd h.2.2 (hls.ne_sign s')
  | .define k n s v, .declare k' n' =>
    simp only [Stmt.lexemes, List.cons_append, List.nil_append, List.cons.injEq] at h
    exact absurd h.2.2.symm (hls'.ne_sign s)
  | .declare k _, .expr e | .define k _ _ _, .expr e => exact absurd h.symm (e.head_ne_let k _ _)
  | .expr e, .declare k _ | .expr e, .define k _ _ _ => exact absurd h (e.head_ne_let k _ _)

theorem Body.unique (b b' : Body) {ls ls' : List Lexeme} (h : b.lexemes ++ ls = b'.lexemes ++ ls')
    (hls : Closed ls) (hls' : Closed ls') : b = b' ∧ ls = ls' := by
  match b, b' with
  | .empty bs, .empty bs' =>
    obtain ⟨rfl, hr⟩ := breakLexemes_unique h hls.head_ne hls'.head_ne
    exact ⟨rfl, hr⟩
  | .empty bs, .filled bs' s' t' =>
    simp only [Body.lexemes, List.append_assoc] at h
    obtain ⟨-, h⟩ := breakLexemes_unique h hls.head_ne fun l hl => (s'.head_ne _ l hl).1
    exact absurd h (hls.ne_stmt s')
  | .filled bs s t, .empty bs' =>
    simp only [Body.lexemes, List.append_assoc] at h
    obtain ⟨-, h⟩ := breakLexemes_unique h (fun l hl => (s.head_ne _ l hl).1) hls'.head_ne
    exact absurd h.symm (hls'.ne_stmt s)
  | .filled bs s t, .filled bs' s' t' =>
    simp only [Body.lexemes, List.append_assoc] at h
    obtain ⟨rfl, hs⟩ := breakLexemes_unique h (fun l hl => (s.head_ne _ l hl).1)
      fun l hl => (s'.head_ne _ l hl).1
    obtain ⟨rfl, ht⟩ := Stmt.unique s s' hs (t.noSign hls) (t'.noSign hls')
    obtain ⟨rfl, hr⟩ := Tail.unique t t' ht hls hls'
    exact ⟨rfl, hr⟩

theorem Tail.unique (t t' : Tail) {ls ls' : List Lexeme} (h : t.lexemes ++ ls = t'.lexemes ++ ls')
    (hls : Closed ls) (hls' : Closed ls') : t = t' ∧ ls = ls' := by
  match t, t' with
  | .stop bs, .stop bs' =>
    obtain ⟨rfl, hr⟩ := breakLexemes_unique h hls.head_ne hls'.head_ne
    exact ⟨rfl, hr⟩
  | .stop bs, .next b' bs' s' t' =>
    simp only [Tail.lexemes, ← breakLexemes_cons, List.append_assoc] at h
    obtain ⟨-, h⟩ := breakLexemes_unique h hls.head_ne fun l hl => (s'.head_ne _ l hl).1
    exact absurd h (hls.ne_stmt s')
  | .next b bs s t, .stop bs' =>
    simp only [Tail.lexemes, ← breakLexemes_cons, List.append_assoc] at h
    obtain ⟨-, h⟩ := breakLexemes_unique h (fun l hl => (s.head_ne _ l hl).1) hls'.head_ne
    exact absurd h.symm (hls'.ne_stmt s)
  | .next b bs s t, .next b' bs' s' t' =>
    simp only [Tail.lexemes, ← breakLexemes_cons, List.append_assoc] at h
    obtain ⟨hbs, hs⟩ := breakLexemes_unique h (fun l hl => (s.head_ne _ l hl).1)
      fun l hl => (s'.head_ne _ l hl).1
    obtain ⟨rfl, ht⟩ := Stmt.unique s s' hs (t.noSign hls) (t'.noSign hls')
    obtain ⟨rfl, hr⟩ := Tail.unique t t' ht hls hls'
    rw [List.cons.injEq] at hbs
    exact ⟨by rw [hbs.1, hbs.2], hr⟩

end

/-- A unit has one derivation. -/
theorem Body.lexemes_injective : Function.Injective Body.lexemes := by
  intro b b' h
  have hls : b.lexemes ++ [] = b'.lexemes ++ [] := by rw [h]
  exact (b.unique b' hls (by simp [Closed]) (by simp [Closed])).1

end ScriptGraph.Phrase
