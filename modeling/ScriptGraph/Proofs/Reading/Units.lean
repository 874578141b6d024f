import Mathlib.Tactic.Set
import ScriptGraph.Proofs.Machine
import ScriptGraph.Proofs.Reading.Completeness

/-!
# Units

A parser that is updated until it is done has read the leaves of a body up to the end token, and its
builder is what the machine makes of the body's instructions inside one function. Conversely, it
gets done on every such stream on which the machine does not fail. Every update that reads a
statement takes a lexeme, so the number of lexemes bounds the number of updates.
-/

namespace ScriptGraph

open Phrase

/-! ### Lexemes of a stream -/

/-- No lexeme before the end of a stream is the end token. -/
lemma Lexer.token_ne_eof (l : Lexer) : ∀ x ∈ l.stream.lexemes, x.token ≠ .eof := by
  induction hn : l.remaining using Nat.strongRecOn generalizing l with
  | ind n ih =>
    rw [Lexer.stream]
    split
    · simp
    · next l' t hnext =>
      split
      · simp
      · next ht =>
        intro x hx
        rcases List.mem_cons.1 hx with rfl | hx
        · rw [Lexer.token_next hnext]
          exact ht
        · exact ih _ (hn ▸ Lexer.remaining_next hnext ht) l' rfl x hx

/-! ### Steps -/

/-- Whether some lexemes are a statement of a unit before others: line breaks may stand before it,
and it takes the line break that ends it, unless the unit ends there. -/
inductive Phrase.Stmt.Leads (s : Stmt) : List Lexeme → List Lexeme → Prop
  | before (bs : List (Leaf .breakLine)) (b : Leaf .breakLine) (rest : List Lexeme) :
      Leads s (breakLexemes bs ++ s.lexemes ++ b.val :: rest) rest
  | last (bs : List (Leaf .breakLine)) : Leads s (breakLexemes bs ++ s.lexemes) []

namespace Phrase.Stmt.Leads

variable {s : Stmt} {ts rest : List Lexeme}

lemma length_lt (h : s.Leads ts rest) : rest.length < ts.length := by
  obtain ⟨k, ks, hk, -⟩ := s.exists_cons
  cases h with
  | before bs b =>
    rw [List.length_append]
    exact Nat.lt_add_left _ (Nat.lt_succ_self _)
  | last bs =>
    rw [hk, List.length_append]
    exact Nat.lt_add_left _ (Nat.succ_pos _)

lemma mem {x : Lexeme} (h : s.Leads ts rest) (hx : x ∈ rest) : x ∈ ts := by
  cases h with
  | before bs b => simp [hx]
  | last bs => cases hx

/-- Whatever the rest derives, all of the lexemes derive with the statement. -/
lemma exists_body {b' : Body} (h : s.Leads ts b'.lexemes) :
    ∃ b : Body, ts = b.lexemes ∧ b.code = s.code :: b'.code := by
  generalize hrest : b'.lexemes = rest at h
  cases h with
  | before bs b =>
    subst hrest
    exact ⟨.filled bs s (b'.after b), by simp [Body.lexemes], by simp [Body.code]⟩
  | last bs =>
    have hcode : b'.code = [] := by
      cases b' with
      | empty bs => rfl
      | filled bs s t =>
        obtain ⟨l, ls, hl, -⟩ := s.exists_cons
        simp [Body.lexemes, hl] at hrest
    refine ⟨.filled bs s (.stop []), ?_, ?_⟩
    · simp [Body.lexemes, Tail.lexemes]
    · rw [hcode]
      simp [Body.code, Tail.code]

end Phrase.Stmt.Leads

namespace Grammar

variable {ending : Ending} {ts rest : List Lexeme} {is : List Instruction} {n : Nat}

lemma reads_unitStep_first {more : Bool} :
    (unitStep n true).Reads ending ts is more rest ↔
      ∃ is', is = .pushFunction :: is' ∧ Stands ending ts ∧
        (unitStep n false).Reads ending ts is' more rest := by
  simp only [unitStep, if_true]
  constructor
  · intro h
    obtain ⟨_, h₁, rfl⟩ := reads_issue_bind.1 h
    obtain ⟨_, _, _, _, hstart, h₂, rfl⟩ := reads_bind.1 h₁
    obtain ⟨rfl, rfl, hs⟩ := reads_start.1 hstart
    exact ⟨_, rfl, hs, h₂⟩
  · rintro ⟨is, rfl, hs, h⟩
    refine (reads_issue_self _).bind ?_ rfl
    exact (reads_start.2 ⟨rfl, rfl, hs⟩).bind (x := ()) h rfl

/-- A step at the end of the unit has passed nothing but line breaks. A step before it has passed a
statement. -/
lemma reads_unitStep_sound {more : Bool} (hp : ending.Proper) (hs : Stands ending ts)
    (hts : ∀ l ∈ ts, l.token ≠ .eof) (h : (unitStep n false).Reads ending ts is more rest) :
    (more = false ∧ is = [.popFunction .beginning] ∧
      ∃ bs eof, ts = breakLexemes bs ∧ ending = .finished eof) ∨
    (more = true ∧ Stands ending rest ∧
      ∃ s : Stmt, s.Leads ts rest ∧ is = s.code.instructions ++ [.statement]) := by
  simp only [unitStep, Bool.false_eq_true, if_false] at h
  obtain ⟨_, _, mid, _, hbreaks, h₁, rfl⟩ := reads_bind.1 h
  obtain ⟨rfl, hmid, hs₁⟩ := (reads_skipBreaks hs).1 hbreaks
  obtain ⟨bs, hbs⟩ := exists_breaks ts
  rw [← hmid] at hbs
  rw [reads_current_bind] at h₁
  split_ifs at h₁ with heof
  · left
    obtain ⟨is, hdone, rfl⟩ := reads_issue_bind.1 h₁
    obtain ⟨rfl, rfl, rfl⟩ := reads_pure.1 hdone
    -- The end token is not among the lexemes, so none is left.
    cases rest with
    | cons l ls => exact absurd heof (hts l (by simp [hbs]))
    | nil =>
      obtain ⟨eof, he⟩ := hs₁ rfl
      exact ⟨rfl, rfl, bs, eof, by rw [hbs, List.append_nil], he⟩
  · right
    obtain ⟨_, _, _, _, hstmt, h₂, rfl⟩ := reads_bind.1 h₁
    obtain ⟨s, rfl, rfl, hs₂⟩ := (sound hp n).statement hs₁ hstmt
    obtain ⟨is, h₃, rfl⟩ := reads_issue_bind.1 h₂
    obtain ⟨_, _, _, _, hend, hmore, rfl⟩ := reads_bind.1 h₃
    obtain ⟨rfl, rfl, rfl⟩ := reads_pure.1 hmore
    obtain ⟨hbreak, hnext⟩ | ⟨-, hclosing, rfl, rfl⟩ := reads_endStatement.1 hend
    · obtain ⟨l, ls, hl, rfl⟩ := hs₂.exists_cons hp hbreak (by decide)
      obtain ⟨rfl, rfl, hs₃⟩ := reads_advance.1 hnext
      refine ⟨rfl, hs₃, s, ?_, by simp⟩
      rw [hbs, ← List.append_assoc]
      exact .before bs ⟨l, hl⟩ _
    · cases rest with
      | cons l ls => exact absurd hclosing (hts l (by simp [hbs]))
      | nil =>
        refine ⟨rfl, hs₂, s, ?_, by simp⟩
        rw [hbs, List.append_nil]
        exact .last bs

/-- The end of a unit is read. -/
lemma reads_unitStep_empty (bs : List (Leaf .breakLine)) {eof : Lexeme} (heof : eof.token = .eof) :
    (unitStep n false).Reads (.finished eof) (breakLexemes bs) [.popFunction .beginning] false
      [] := by
  have hs : Stands (.finished eof) [] := fun _ => ⟨eof, rfl⟩
  have hskip : skipBreaks.Reads (.finished eof) (breakLexemes bs ++ []) [] () [] :=
    reads_skipBreaks_append hs (by simp)
  rw [List.append_nil] at hskip
  simp only [unitStep, Bool.false_eq_true, if_false]
  refine hskip.bind ?_ rfl
  have he : (currentOf (.finished eof) []).token = .eof := heof
  rw [reads_current_bind, if_pos he]
  exact (reads_issue_self _).bind (reads_pure.2 ⟨rfl, rfl, rfl⟩) rfl

/-- The first statement of a unit is read, and what follows it is left as a body. -/
lemma reads_unitStep_filled (bs : List (Leaf .breakLine)) (s : Stmt) (t : Tail) {eof : Lexeme}
    (heof : eof.token = .eof) (hn : 2 * s.lexemes.length + 1 ≤ n) :
    ∃ b : Body, b.code = t.code ∧ b.lexemes.length ≤ t.lexemes.length ∧
      (unitStep n false).Reads (.finished eof) (Body.filled bs s t).lexemes
        (s.code.instructions ++ [.statement]) true b.lexemes := by
  have hs : ∀ ts, Stands (.finished eof) ts := fun _ _ => ⟨eof, rfl⟩
  have hbreak : ∀ l ∈ (s.lexemes ++ t.lexemes).head?, l.token ≠ .breakLine :=
    fun l hl => (s.head_ne _ l hl).1
  -- It is enough that the end of the statement is read.
  suffices hend : EndsBefore (currentOf (.finished eof) t.lexemes) ∧
      ∃ b : Body, b.code = t.code ∧ b.lexemes.length ≤ t.lexemes.length ∧
        (endStatement .eof).Reads (.finished eof) t.lexemes [] () b.lexemes by
    obtain ⟨hf, b, hcode, hlen, hend⟩ := hend
    refine ⟨b, hcode, hlen, ?_⟩
    simp only [unitStep, Bool.false_eq_true, if_false, Body.lexemes, List.append_assoc]
    refine (reads_skipBreaks_append (hs _) hbreak).bind ?_ rfl
    have he := (current_stmt_ne (.finished eof) s t.lexemes).2
    rw [reads_current_bind, if_neg he]
    refine (reads_statement s hn (hs _) hf).bind ?_ rfl
    refine (reads_issue_self _).bind ?_ rfl
    exact hend.bind (reads_pure.2 ⟨rfl, rfl, rfl⟩) rfl
  match t with
  | .stop [] =>
    refine ⟨.inr (.inr (.inr heof)), .empty [], rfl, Nat.le_refl _, ?_⟩
    have he : (currentOf (.finished eof) (Tail.stop []).lexemes).token = .eof := heof
    exact reads_endStatement.2 (.inr ⟨by rw [he]; decide, he, rfl, rfl⟩)
  | .stop (b :: bs) =>
    exact ⟨.inl b.2, .empty bs, rfl, Nat.le_succ _, reads_endStatement_cons b (hs _)⟩
  | .next b bs s t =>
    refine ⟨.inl b.2, .filled bs s t, rfl, ?_, ?_⟩
    · simp [Body.lexemes, Tail.lexemes]
    · simp only [Body.lexemes, Tail.lexemes, List.cons_append]
      exact reads_endStatement_cons b (hs _)

end Grammar

/-! ### Updates -/

namespace Parser

/-- A parser whose function is open and that has read nothing. -/
def opened (p : Parser) : Parser :=
  { p with builder := p.builder.pushFunction, phase := .parsing }

/-- An update succeeds if the step is read and its instructions are carried out. -/
lemma update_eq_ok {p p' : Parser} {more : Bool} (hp : p.phase = .fresh ∨ p.phase = .parsing) :
    p.update = (p', .ok more) ↔
      ∃ is rest m,
        (Grammar.unitStep p.fuel (p.phase = .fresh)).Reads p.ending p.lexemes is more rest ∧
        Machine.run? { builder := p.builder } is = some m ∧
        p' = { p with
          lexemes := rest, current := Grammar.currentOf p.ending rest, builder := m.builder
          phase := if more then .parsing else .done } := by
  have hopen : ¬(p.isDone = true ∨ p.isFailed = true) := by
    rcases hp with hp | hp <;> simp [isDone, isFailed, hp]
  rw [update, if_neg hopen]
  constructor
  · intro h
    dsimp only at h
    split at h
    · simp [abandon] at h
    · simp [abandon] at h
    · next m more' rest hperform hresult =>
      simp only [Prod.mk.injEq, Except.ok.injEq] at h
      obtain ⟨rfl, rfl⟩ := h
      refine ⟨_, rest, m, ⟨_, ?_, rfl⟩, perform_eq_ok.1 hperform, rfl⟩
      rw [← hresult]
  · rintro ⟨is, rest, m, ⟨t, hread, rfl⟩, hrun, rfl⟩
    have hperform : perform { builder := p.builder } t.toList = .ok m := perform_eq_ok.2 hrun
    simp only [hread, hperform]

lemma update_fresh {p p' : Parser} {more : Bool} (hp : p.phase = .fresh) :
    p.update = (p', .ok more) ↔
      Stands p.ending p.lexemes ∧ p.opened.update = (p', .ok more) := by
  rw [update_eq_ok (.inl hp), update_eq_ok (p := p.opened) (.inr rfl)]
  simp only [hp, decide_true, Grammar.reads_unitStep_first]
  constructor
  · rintro ⟨_, rest, m, ⟨is, rfl, hs, hread⟩, hrun, rfl⟩
    exact ⟨hs, is, rest, m, hread, hrun, rfl⟩
  · rintro ⟨hs, is, rest, m, hread, hrun, rfl⟩
    exact ⟨_, rest, m, ⟨is, rfl, hs, hread⟩, hrun, rfl⟩

lemma run_succ_eq_ok {p p' : Parser} {n : Nat} :
    run (n + 1) p = .ok p' ↔
      ∃ q more, p.update = (q, .ok more) ∧ (if more then run n q = .ok p' else q = p') := by
  rw [run]
  rcases p.update with ⟨q, e | _ | _⟩ <;> simp

/-- The first update of a parser opens the function of its unit. -/
lemma run_fresh {p p' : Parser} {n : Nat} (hp : p.phase = .fresh) :
    run (n + 1) p = .ok p' ↔ Stands p.ending p.lexemes ∧ run (n + 1) p.opened = .ok p' := by
  simp only [run_succ_eq_ok, update_fresh hp]
  constructor
  · rintro ⟨q, more, ⟨hs, hq⟩, h⟩
    exact ⟨hs, q, more, hq, h⟩
  · rintro ⟨hs, q, more, hq, h⟩
    exact ⟨q, more, ⟨hs, hq⟩, h⟩

/-- A statement leaves the stack of a machine empty, so the next update goes on where it stopped. -/
lemma run?_statement {b : Builder} {c : Code} {m : Machine}
    (h : Machine.run? { builder := b } (c.instructions ++ [.statement]) = some m) :
    m = { builder := m.builder } := by
  obtain ⟨m₁, hc, hs⟩ := Machine.run?_append_eq_some.1 h
  obtain ⟨t, ht⟩ := Machine.operands_run?_code c hc
  simp only [Machine.run?, Machine.step, ht, Option.some.injEq] at hs
  rw [← hs]

/-- A parser that has come to its end between statements has read a body. -/
lemma run_sound {p p' : Parser} {n : Nat} (hphase : p.phase = .parsing) (hp : p.ending.Proper)
    (hs : Stands p.ending p.lexemes) (hts : ∀ l ∈ p.lexemes, l.token ≠ .eof)
    (h : run n p = .ok p') (hn : p.lexemes.length < n ∨ p'.isDone = true) :
    p'.isDone = true ∧ ∃ (b : Body) (eof : Lexeme) (m : Machine), p.lexemes = b.lexemes ∧
      p.ending = .finished eof ∧ p'.builder = m.builder ∧
      Machine.run? { builder := p.builder }
        (Code.instructionsAll b.code ++ [.popFunction .beginning]) = some m := by
  induction n generalizing p with
  | zero =>
    cases h
    simp [isDone, hphase] at hn
  | succ n ih =>
    obtain ⟨q, more, hq, h⟩ := run_succ_eq_ok.1 h
    obtain ⟨is, rest, m, hread, hrun, rfl⟩ := (update_eq_ok (.inr hphase)).1 hq
    simp only [hphase, reduceCtorEq, decide_false] at hread
    rcases Grammar.reads_unitStep_sound hp hs hts hread with
      ⟨rfl, rfl, bs, eof, hbs, heof⟩ | ⟨rfl, hs', s, hleads, rfl⟩
    · simp only [Bool.false_eq_true, if_false] at h
      subst h
      exact ⟨rfl, .empty bs, eof, m, hbs, heof, rfl, hrun⟩
    · simp only [if_true] at h
      have hn' : rest.length < n ∨ p'.isDone = true :=
        hn.imp_left fun hn => Nat.lt_of_lt_of_le hleads.length_lt (Nat.le_of_lt_succ hn)
      obtain ⟨hdone, b', eof, m', hb', heof, hm', hrun'⟩ :=
        ih (p := { p with
          lexemes := rest, current := Grammar.currentOf p.ending rest, builder := m.builder
          phase := .parsing }) rfl hp hs' (fun l hl => hts l (hleads.mem hl)) h hn'
      dsimp only at hb'
      subst hb'
      obtain ⟨b, hb, hcode⟩ := hleads.exists_body
      refine ⟨hdone, b, eof, m', hb, heof, hm', ?_⟩
      rw [hcode, Code.instructionsAll, ← List.singleton_append, ← List.append_assoc,
        List.append_assoc, Machine.run?_append_eq_some]
      exact ⟨m, hrun, by rw [run?_statement hrun]; exact hrun'⟩

/-- A parser between statements gets through every body on which the machine does not fail. -/
lemma run_complete {p : Parser} {n : Nat} {b : Body} {eof : Lexeme} {m : Machine}
    (hphase : p.phase = .parsing) (hb : p.lexemes = b.lexemes) (hending : p.ending = .finished eof)
    (heof : eof.token = .eof) (hsize : b.lexemes.length ≤ p.size) (hn : b.lexemes.length < n)
    (hrun : Machine.run? { builder := p.builder }
      (Code.instructionsAll b.code ++ [.popFunction .beginning]) = some m) :
    ∃ p', run n p = .ok p' ∧ p'.isDone = true ∧ p'.builder = m.builder := by
  induction n generalizing p b with
  | zero => exact absurd hn (Nat.not_lt_zero _)
  | succ n ih =>
    cases b with
    | empty bs =>
      have hread := Grammar.reads_unitStep_empty (n := p.fuel) bs heof
      refine ⟨{ p with
        lexemes := [], current := Grammar.currentOf p.ending [], builder := m.builder
        phase := .done }, ?_, rfl, rfl⟩
      rw [run_succ_eq_ok]
      refine ⟨_, false, (update_eq_ok (.inr hphase)).2 ⟨_, [], m, ?_, hrun, rfl⟩, rfl⟩
      simpa [hphase, hb, hending, Body.lexemes, Body.code, Code.instructionsAll] using hread
    | filled bs s t =>
      have hlen : (Body.filled bs s t).lexemes.length =
          bs.length + s.lexemes.length + t.lexemes.length := by
        simp [Body.lexemes, breakLexemes, Nat.add_assoc]
      have hpos : 0 < s.lexemes.length := by
        obtain ⟨l, ls, hs, -⟩ := s.exists_cons
        simp [hs]
      obtain ⟨b', hcode, hlen', hread⟩ :=
        Grammar.reads_unitStep_filled (n := p.fuel) bs s t heof (by rw [fuel]; omega)
      rw [Body.code, Code.instructionsAll, ← List.singleton_append, ← List.append_assoc,
        List.append_assoc, Machine.run?_append_eq_some, ← hcode] at hrun
      obtain ⟨m₁, hrun₁, hrun₂⟩ := hrun
      rw [run?_statement hrun₁] at hrun₂
      obtain ⟨p', hp', hdone, hbuilder⟩ :=
        ih (p := { p with
          lexemes := b'.lexemes, current := Grammar.currentOf p.ending b'.lexemes
          builder := m₁.builder, phase := .parsing }) (b := b') rfl rfl hending
          (by dsimp only; omega) (by omega) hrun₂
      refine ⟨p', ?_, hdone, hbuilder⟩
      rw [run_succ_eq_ok]
      refine ⟨_, true, (update_eq_ok (.inr hphase)).2 ⟨_, b'.lexemes, m₁, ?_, hrun₁, rfl⟩, hp'⟩
      simpa [hphase, hb, hending] using hread

end Parser

/-! ### Whole units -/

/-- Whether the tokens of a lexer up to the end token are the leaves of a body. -/
def Lexer.Derives (l : Lexer) (b : Body) : Prop :=
  ∃ eof, l.stream = ⟨b.lexemes, .finished eof⟩

namespace Lexer

variable {l : Lexer}

/-- A body with the lexemes up to the end token as its leaves is the only one that they derive. -/
lemma Derives.unique {b b' : Body} (h : l.Derives b) (hb' : b'.lexemes = l.stream.lexemes) :
    b = b' := by
  obtain ⟨eof, hstream⟩ := h
  apply Body.lexemes_injective
  rw [hb', hstream]

/-- The lexemes up to the end token by number. -/
def lexeme (l : Lexer) (i : Nat) : Lexeme := l.stream.lexemes.getD i l.current

lemma token_lexeme {tokens : List Token} (h : l.stream.lexemes.map Lexeme.token = tokens)
    (i : Nat) : (l.lexeme i).token = tokens.getD i l.current.token := by
  rw [lexeme, ← h]
  simp only [List.getD_eq_getElem?_getD, List.getElem?_map]
  cases l.stream.lexemes[i]? <;> rfl

lemma map_lexeme_range {tokens : List Token} (h : l.stream.lexemes.map Lexeme.token = tokens) :
    (List.range tokens.length).map l.lexeme = l.stream.lexemes := by
  rw [← h, List.length_map]
  apply List.ext_getElem
  · rw [List.length_map, List.length_range]
  · intro i _ hi
    simp [lexeme, hi]

end Lexer

namespace Parser

variable {l : Lexer} {builder : Builder} {n : Nat}

/-- A parser that has come to its end has read a body and built its function. -/
theorem run_ofLexer_sound {p' : Parser} (h : run n (ofLexer l builder) = .ok p')
    (hn : l.stream.lexemes.length < n ∨ p'.isDone = true) :
    p'.isDone = true ∧ ∃ b m, l.Derives b ∧ p'.builder = m.builder ∧
      Machine.run? { builder } (Code.unit b.code).instructions = some m := by
  cases n with
  | zero =>
    cases h
    simp [isDone, ofLexer] at hn
  | succ n =>
    obtain ⟨hs, h⟩ := (run_fresh rfl).1 h
    obtain ⟨hdone, b, eof, m, hb, heof, hm, hrun⟩ :=
      run_sound (p := (ofLexer l builder).opened) rfl l.proper_stream hs l.token_ne_eof h hn
    refine ⟨hdone, b, m, ⟨eof, ?_⟩, hm, hrun⟩
    rw [← hb, ← heof]
    rfl

/-- A parser gets through every stream that derives a body on which the machine does not fail. -/
theorem run_ofLexer_complete {b : Body} {m : Machine} (hb : l.Derives b)
    (hrun : Machine.run? { builder } (Code.unit b.code).instructions = some m)
    (hn : l.stream.lexemes.length < n) :
    ∃ p', run n (ofLexer l builder) = .ok p' ∧ p'.isDone = true ∧ p'.builder = m.builder := by
  obtain ⟨eof, hstream⟩ := hb
  have hproper := l.proper_stream
  rw [hstream] at hn hproper
  obtain ⟨n, rfl⟩ := Nat.exists_eq_add_one_of_ne_zero (Nat.ne_zero_of_lt hn)
  have hlexemes : (ofLexer l builder).lexemes = b.lexemes := by simp [ofLexer, hstream]
  have hending : (ofLexer l builder).ending = .finished eof := by simp [ofLexer, hstream]
  have hsize : b.lexemes.length ≤ (ofLexer l builder).opened.size := by
    simp [opened, ofLexer, hstream]
  obtain ⟨p', h, hdone, hm⟩ :=
    run_complete (p := (ofLexer l builder).opened) rfl hlexemes hending hproper hsize hn hrun
  refine ⟨p', (run_fresh rfl).2 ⟨?_, h⟩, hdone, hm⟩
  rw [hending]
  exact fun _ => ⟨eof, rfl⟩

end Parser

/-- A text has a graph if its tokens derive a body on which the machine does not fail, and then the
graph is that of the machine. -/
theorem parse_eq_ok {lexicon : Lexicon} {source : List UInt8} {g : Graph} :
    parse lexicon source = .ok g ↔
      ∃ b m, (Lexer.ofBytes lexicon source).Derives b ∧
        Machine.run? {} (Code.unit b.code).instructions = some m ∧ g = m.builder.graph := by
  set l := Lexer.ofBytes lexicon source with hl
  have hsize : l.stream.lexemes.length < (Parser.ofLexer l {}).size + 1 := Nat.lt_succ_self _
  have hgraph {p : Parser} {m : Machine} (hdone : p.isDone = true) (hm : p.builder = m.builder) :
      p.graph?.getD {} = m.builder.graph := by
    simp [Parser.graph?, hdone, hm]
  rw [parse, ← hl, l.parse_eq_map]
  constructor
  · intro h
    cases hrun : Parser.run ((Parser.ofLexer l {}).size + 1) (Parser.ofLexer l {}) with
    | error e => simp [hrun, Except.map] at h
    | ok p =>
      simp only [hrun, Except.map, Except.ok.injEq] at h
      obtain ⟨hdone, b, m, hb, hm, hm'⟩ := Parser.run_ofLexer_sound hrun (.inl hsize)
      exact ⟨b, m, hb, hm', by rw [← h, hgraph hdone hm]⟩
  · rintro ⟨b, m, hb, hrun, rfl⟩
    obtain ⟨p, hp, hdone, hm⟩ := Parser.run_ofLexer_complete hb hrun hsize
    simp only [hp, Except.map, Except.ok.injEq]
    exact hgraph hdone hm

end ScriptGraph
