import ScriptGraph.Proofs.Building
import ScriptGraph.Proofs.Pruning
import ScriptGraph.Proofs.Reading.Fuel
import ScriptGraph.Proofs.Windows

/-!
# The course of a parse

Every request to a parser reads one more statement, comes to the end of the unit or fails, and in
the last two cases there is nothing more to read. A statement takes a lexeme at least and a lexeme
takes a byte at least, so this comes after as many requests as the window has bytes at the latest.
-/

namespace ScriptGraph

open Phrase

namespace Parser

/-! ### One request -/

/-- What holds of a parser between requests. -/
structure Steady (p : Parser) : Prop where
  proper : p.ending.Proper
  tokens : ∀ x ∈ p.lexemes, x.token ≠ .eof
  stands : p.phase = .parsing → Stands p.ending p.lexemes
  size : p.lexemes.length ≤ p.size

lemma steady_ofLexer (l : Lexer) (b : Builder) : (ofLexer l b).Steady :=
  ⟨l.proper_stream, l.token_ne_eof, by rintro ⟨⟩, Nat.le_refl _⟩

/-- Whether a parser is neither done nor failed. -/
def Goes (p : Parser) : Prop := p.phase = .fresh ∨ p.phase = .parsing

/-- The builder inside of the function of the unit. -/
def unitBuilder (p : Parser) : Builder :=
  if p.phase = .fresh then p.builder.pushFunction else p.builder

variable {p q : Parser}

/-- What a request can do to a parser that goes. -/
inductive Step (p : Parser) : Parser × Except Error Bool → Prop
  | statement {q : Parser} (s : Stmt) (hphase : q.phase = .parsing) (hsteady : q.Steady)
      (hleads : s.Leads p.lexemes q.lexemes)
      (hrun : Machine.run? { builder := p.unitBuilder } (s.code.instructions ++ [.statement]) =
        some { builder := q.builder }) : Step p (q, .ok true)
  | finish {q : Parser} (bs : List (Leaf .breakLine)) (eof : Lexeme) (m : Machine)
      (hphase : q.phase = .done) (hlexemes : p.lexemes = breakLexemes bs)
      (hending : p.ending = .finished eof)
      (hrun : Machine.run? { builder := p.unitBuilder } [.popFunction .beginning] = some m)
      (hbuilder : q.builder = m.builder) : Step p (q, .ok false)
  | fail {q : Parser} (e : Error) (hphase : q.phase = .failed) : Step p (q, .error e)

lemma phase_of_error {e : Error} (h : p.update = (q, .error e)) : q.phase = .failed := by
  rw [update] at h
  split at h
  · cases h
  · dsimp only at h
    split at h
    · cases h
      rfl
    · cases h
      rfl
    · cases h

lemma step_of_parsing (hp : p.Steady) (hphase : p.phase = .parsing) : p.Step p.update := by
  rcases hupdate : p.update with ⟨q, e | more⟩
  · exact .fail e (phase_of_error hupdate)
  · obtain ⟨is, rest, m, hread, hrun, rfl⟩ := (update_eq_ok (.inr hphase)).1 hupdate
    simp only [hphase, reduceCtorEq, decide_false] at hread
    have hbuilder : p.unitBuilder = p.builder := by rw [unitBuilder, hphase, if_neg (by decide)]
    rw [← hbuilder] at hrun
    rcases Grammar.reads_unitStep_sound hp.proper (hp.stands hphase) hp.tokens hread with
      ⟨rfl, rfl, bs, eof, hbs, heof⟩ | ⟨rfl, hs, s, hleads, rfl⟩
    · exact .finish bs eof m rfl hbs heof hrun rfl
    · rw [run?_statement hrun] at hrun
      refine .statement s rfl ⟨hp.proper, ?_, fun _ => hs, ?_⟩ hleads hrun
      · intro x hx
        exact hp.tokens x (hleads.mem hx)
      · exact (Nat.le_of_lt hleads.length_lt).trans hp.size

/-- The first request is like any other, once the function of the unit is open. -/
lemma step_update (hp : p.Steady) (hgoes : p.Goes) : p.Step p.update := by
  rcases hgoes with hfresh | hparsing
  · rcases hupdate : p.update with ⟨q, e | more⟩
    · exact .fail e (phase_of_error hupdate)
    · obtain ⟨hs, hopened⟩ := (update_fresh hfresh).1 hupdate
      have hstep := step_of_parsing (p := p.opened) ⟨hp.proper, hp.tokens, fun _ => hs, hp.size⟩ rfl
      have hbuilder : p.opened.unitBuilder = p.unitBuilder := by
        rw [unitBuilder, unitBuilder, hfresh]
        rfl
      rw [hopened] at hstep
      cases hstep with
      | statement s hphase hsteady hleads hrun =>
        exact .statement s hphase hsteady hleads (hbuilder ▸ hrun)
      | finish bs eof m hphase hlexemes hending hrun hq =>
        exact .finish bs eof m hphase hlexemes hending (hbuilder ▸ hrun) hq
  · exact step_of_parsing hp hparsing

/-- Whether the next request reads the same with any more fuel. -/
def HasFuel (p : Parser) : Prop :=
  ∀ n, Grammar.unitStep (p.fuel + n) (p.phase = .fresh) p.ending p.lexemes =
    Grammar.unitStep p.fuel (p.phase = .fresh) p.ending p.lexemes

lemma Steady.hasFuel (hp : p.Steady) (hgoes : p.Goes) : p.HasFuel := by
  intro n
  have hsize := hp.size
  apply Grammar.unitStep_add hp.proper (by rw [fuel]; omega)
  intro hphase
  exact hp.stands (hgoes.resolve_left (of_decide_eq_false hphase))

/-- A parser that is done or failed does nothing more. -/
lemma after_of_stopped (h : p.isDone = true ∨ p.isFailed = true) (n : Nat) :
    p.after n = p ∧ p.answer n = .ok false := by
  have hupdate : p.update = (p, .ok false) := by rw [update, if_pos h]
  induction n with
  | zero => exact ⟨rfl, congrArg Prod.snd hupdate⟩
  | succ n ih =>
    rw [after, answer, hupdate]
    exact ih

/-! ### All requests -/

/-- Whether a parser has come to its end with a builder, or has failed. -/
def EndsWith (p : Parser) : Except Error Builder → Prop
  | .ok b => p.isDone = true ∧ p.builder = b
  | .error _ => p.isFailed = true

/-- What a parser does over time: it reads some statements, one with each request, and then comes to
its end with a builder or to an error, for good. -/
structure Course (p : Parser) (ss : List Stmt) (outcome : Except Error Builder) : Prop where
  /-- As long as there are statements, a request reads the next one. -/
  reads (i : Nat) (hi : i < ss.length) :
    p.answer i = .ok true ∧ ss[i].Leads (p.after i).lexemes (p.after (i + 1)).lexemes
  /-- The request after them is answered by the end or by the error. -/
  stops : p.answer ss.length = outcome.map fun _ => false
  /-- At the end nothing but line breaks is left. -/
  complete (b : Builder) (hb : outcome = .ok b) :
    ∃ bs eof, (p.after ss.length).lexemes = breakLexemes bs ∧ p.ending = .finished eof
  /-- Up to then the parser is neither done nor failed, and no request runs out of fuel. -/
  goes (n : Nat) (hn : n ≤ ss.length) : (p.after n).Goes ∧ (p.after n).HasFuel
  /-- From then on every request has the same answer, and the parser is done or has failed. -/
  rests (n : Nat) (hn : ss.length < n) : p.answer n = .ok false ∧ (p.after n).EndsWith outcome

variable {s : Stmt} {ss : List Stmt} {outcome : Except Error Builder}

/-- A request that reads a statement comes before the others. -/
lemma Course.cons (h : q.Course ss outcome) (hp : p.Steady) (hgoes : p.Goes)
    (hupdate : p.update = (q, .ok true)) (hleads : s.Leads p.lexemes q.lexemes) :
    p.Course (s :: ss) outcome := by
  have hafter (n : Nat) : p.after (n + 1) = q.after n := by rw [after, hupdate]
  have hanswer (n : Nat) : p.answer (n + 1) = q.answer n := by rw [answer, hupdate]
  have hending : q.ending = p.ending := by rw [← ending_update p, hupdate]
  refine ⟨?_, ?_, ?_, ?_, ?_⟩
  · rintro (_ | i) hi
    · rw [hafter]
      exact ⟨congrArg Prod.snd hupdate, hleads⟩
    · rw [hanswer, hafter, hafter]
      exact h.reads i (Nat.lt_of_succ_lt_succ hi)
  · rw [List.length_cons, hanswer]
    exact h.stops
  · rw [List.length_cons, hafter, ← hending]
    exact h.complete
  · rintro (_ | n) hn
    · exact ⟨hgoes, hp.hasFuel hgoes⟩
    · rw [hafter]
      exact h.goes n (Nat.le_of_succ_le_succ hn)
  · rintro (_ | n) hn
    · cases hn
    · rw [hanswer, hafter]
      exact h.rests n (Nat.lt_of_succ_lt_succ hn)

/-- A request that reads no statement is the last one that does anything. -/
lemma Course.last (hp : p.Steady) (hgoes : p.Goes)
    (hupdate : p.update = (q, outcome.map fun _ => false)) (hends : q.EndsWith outcome)
    (hcomplete : ∀ b, outcome = .ok b →
      ∃ bs eof, p.lexemes = breakLexemes bs ∧ p.ending = .finished eof) :
    p.Course [] outcome := by
  have hstopped : q.isDone = true ∨ q.isFailed = true := by
    cases outcome with
    | ok b => exact .inl hends.1
    | error e => exact .inr hends
  refine ⟨?_, congrArg Prod.snd hupdate, hcomplete, ?_, ?_⟩
  · rintro i ⟨⟩
  · rintro n hn
    rw [Nat.le_zero.1 hn]
    exact ⟨hgoes, hp.hasFuel hgoes⟩
  · rintro (_ | n) hn
    · cases hn
    · obtain ⟨hafter, hanswer⟩ := after_of_stopped hstopped n
      rw [answer, after, hupdate, hafter]
      exact ⟨hanswer, hends⟩

/-- Every parser has a course. Each of its statements takes a lexeme, and at the end the builder has
carried out their instructions inside of one function. -/
lemma exists_course (hp : p.Steady) (hgoes : p.Goes) :
    ∃ ss outcome, p.Course ss outcome ∧ ss.length ≤ p.lexemes.length ∧
      ∀ b, outcome = .ok b → ∃ m, b = m.builder ∧
        Machine.run? { builder := p.unitBuilder }
          (Code.instructionsAll (ss.map Stmt.code) ++ [.popFunction .beginning]) = some m := by
  induction hlength : p.lexemes.length using Nat.strongRecOn generalizing p with
  | ind n ih =>
    have hstep := step_update hp hgoes
    rcases hupdate : p.update with ⟨q, answer⟩
    rw [hupdate] at hstep
    cases hstep with
    | fail e hphase =>
      have hends : q.EndsWith (.error e) := decide_eq_true hphase
      exact ⟨[], .error e, .last hp hgoes hupdate hends (by rintro b ⟨⟩), Nat.zero_le _,
        by rintro b ⟨⟩⟩
    | finish bs eof m hphase hlexemes hending hrun hbuilder =>
      have hends : q.EndsWith (.ok q.builder) := ⟨decide_eq_true hphase, rfl⟩
      refine ⟨[], .ok q.builder, .last hp hgoes hupdate hends ?_, Nat.zero_le _, ?_⟩
      · rintro b -
        exact ⟨bs, eof, hlexemes, hending⟩
      · rintro b ⟨⟩
        exact ⟨m, hbuilder, hrun⟩
    | statement s hphase hsteady hleads hrun =>
      have hlt := hleads.length_lt
      obtain ⟨ss, outcome, hcourse, hle, hmachine⟩ :=
        ih _ (hlength ▸ hlt) hsteady (.inr hphase) rfl
      refine ⟨s :: ss, outcome, hcourse.cons hp hgoes hupdate hleads, ?_, ?_⟩
      · exact (Nat.succ_le_succ hle).trans (hlength ▸ hlt)
      · intro b hb
        obtain ⟨m, hm, hrest⟩ := hmachine b hb
        have hbuilder : q.unitBuilder = q.builder := by
          rw [unitBuilder, hphase, if_neg (by decide)]
        refine ⟨m, hm, ?_⟩
        rw [List.map_cons, Code.instructionsAll, ← List.singleton_append, ← List.append_assoc,
          List.append_assoc, Machine.run?_append_eq_some]
        exact ⟨_, hrun, hbuilder ▸ hrest⟩

/-- There is a builder exactly if the parser is done, and then a graph with it. -/
lemma Course.results (h : p.Course ss outcome) (n : Nat) :
    (p.after n).builder? = (if ss.length < n then outcome.toOption else none) ∧
      (p.after n).graph? = (p.after n).builder?.map Builder.graph := by
  constructor
  · split_ifs with hn
    · obtain ⟨-, hends⟩ := h.rests n hn
      cases outcome with
      | ok b =>
        obtain ⟨hdone, hbuilder⟩ := hends
        rw [builder?, if_pos hdone, hbuilder]
        rfl
      | error e =>
        have hdone : (p.after n).isDone = false := by
          rw [isDone, of_decide_eq_true hends]
          rfl
        rw [builder?, hdone]
        rfl
    · have hdone : (p.after n).isDone = false := by
        rw [isDone]
        rcases (h.goes n (Nat.le_of_not_lt hn)).1 with hphase | hphase <;> rw [hphase] <;> rfl
      rw [builder?, hdone]
      rfl
  · rw [Parser.graph?, Parser.builder?]
    split_ifs <;> rfl

/-- A run with enough requests ends with the answer that is not that of a statement. -/
lemma run_of_answers {k n : Nat} (hreads : ∀ i < k, p.answer i = .ok true) (hk : k < n)
    {answer : Except Error Bool} (hstops : p.answer k = answer) (hanswer : answer ≠ .ok true) :
    p.run n = answer.map fun _ => p.after (k + 1) := by
  subst hstops
  induction k generalizing p n with
  | zero =>
    obtain ⟨n, rfl⟩ := Nat.exists_eq_add_one_of_ne_zero (Nat.ne_zero_of_lt hk)
    rw [run]
    revert hanswer
    rw [Parser.answer, after, after]
    rcases p.update with ⟨q, e | _ | _⟩
    · exact fun _ => rfl
    · exact fun _ => rfl
    · exact fun hanswer => absurd rfl hanswer
  | succ k ih =>
    obtain ⟨n, rfl⟩ := Nat.exists_eq_add_one_of_ne_zero (Nat.ne_zero_of_lt hk)
    have hupdate : p.update = (p.update.1, .ok true) := Prod.ext rfl (hreads 0 (Nat.succ_pos k))
    rw [run, hupdate]
    exact ih (fun i hi => hreads (i + 1) (Nat.succ_lt_succ hi)) (Nat.lt_of_succ_lt_succ hk) hanswer

end Parser

/-! ### The number of requests -/

lemma Symbol.length_decode_le (bs : List UInt8) : (decode bs).length ≤ bs.length := by
  have hlength (skip : Nat) : (decodeFrom skip bs).length ≤ bs.length := by
    induction bs generalizing skip with
    | nil => exact Nat.le_refl _
    | cons b bs ih =>
      cases skip with
      | succ n => exact (ih n).trans (Nat.le_succ _)
      | zero =>
        rw [decodeFrom]
        split
        · exact Nat.succ_le_succ (ih _)
        · exact Nat.succ_le_succ (ih _)
  exact hlength 0

/-- Every lexeme of a stream takes a symbol. -/
lemma Lexer.length_stream_le (l : Lexer) : l.stream.lexemes.length ≤ l.remaining := by
  induction hm : l.remaining using Nat.strongRecOn generalizing l with
  | ind m ih =>
    rcases hnext : l.next with ⟨l', e | t⟩
    · rw [stream_of_next_error hnext]
      exact Nat.zero_le _
    · rw [stream_of_next_ok hnext]
      by_cases ht : t = .eof
      · rw [if_pos ht]
        exact Nat.zero_le _
      · rw [if_neg ht]
        have hlt : l'.remaining < m := hm ▸ remaining_next hnext ht
        exact Nat.succ_le_of_lt (Nat.lt_of_le_of_lt (ih _ hlt l' rfl) hlt)

/-- A parser of a window answers and ends as one of the bytes of the window. -/
lemma Parser.answer_ofWindow (lexicon : Lexicon) (buffer : List UInt8) (offset size : Nat)
    (b : Builder) (n : Nat) :
    let p := ofLexer (.ofWindow lexicon buffer offset size) b
    let q := ofLexer (.ofBytes lexicon (Cursor.window buffer offset size)) b
    p.size = q.size ∧ p.answer n = q.answer n ∧ (p.after n).graph? = (q.after n).graph? := by
  intro p q
  have hshift : p = ofLexer ((Lexer.ofBytes lexicon (Cursor.window buffer offset size)).shift
      (min offset buffer.length)) b := by
    rw [Cursor.window_eq_slice, ← Lexer.ofWindow_eq_shift]
  rw [hshift]
  exact ⟨(beside_shift _ _ b).size, answer_shift _ _ b n⟩

/-- Whether a builder has got one unit more than another one, and has no function open and as many
blocks as that one: none, unless some were open outside of any function. -/
structure Builder.Completes (b b' : Builder) : Prop where
  functions : b'.functionDepth = 0
  blocks : b'.blockDepth = b.blockDepth
  entryPoints : b'.graph.entryPoints.length = b.graph.entryPoints.length + 1

/-- A builder without open functions that has been through a unit has none again. -/
lemma Machine.completes_of_run? {b : Builder} {body : List Code} {m : Machine}
    (hb : b.functionDepth = 0)
    (h : Machine.run? { builder := b } (Code.unit body).instructions = some m) :
    b.Completes m.builder := by
  have hfunctions : b.view.functions = [] := List.length_eq_zero_iff.1 hb
  obtain ⟨r, fs, pre, t, -, -, hview⟩ := Machine.run?_unit hfunctions h
  have hlive : m.builder.functions.live = b.functions.live := congrArg View.functions hview
  have hblocks : m.builder.blocks.live = b.blocks.live := congrArg View.blocks hview
  have hgraph : m.builder.graph = Builder.addEntry { b.graph with functions := fs } :=
    congrArg View.graph hview
  refine ⟨(congrArg List.length hlive).trans hb, congrArg List.length hblocks, ?_⟩
  rw [hgraph, Builder.addEntry, Graph.entryPoints_prune, List.length_map, List.length_append]
  rfl

/-- Incremental parsing always ends, for every window and every builder without open functions:
after a request for each statement, of which there are no more than bytes, the parser is done or has
failed. Only if it is done there are a graph and a builder, in which the unit is one more entry
point. A text as a whole is parsed to that graph or that error. -/
theorem updates_end (lexicon : Lexicon) (buffer : List UInt8) (offset size : Nat) (b : Builder)
    (h : b.functionDepth = 0) :
    let window := Cursor.window buffer offset size
    let p := Parser.ofLexer (.ofWindow lexicon buffer offset size) b
    ∃ ss outcome, p.Course ss outcome ∧ ss.length ≤ window.length ∧
      (∀ n, (p.after n).builder? = (if ss.length < n then outcome.toOption else none) ∧
        (p.after n).graph? = (p.after n).builder?.map Builder.graph) ∧
      (∀ b', outcome = .ok b' → b.Completes b') ∧
      (b = {} → parse lexicon window = outcome.map Builder.graph) := by
  intro window p
  obtain ⟨ss, outcome, hcourse, hle, hmachine⟩ :=
    Parser.exists_course (Parser.steady_ofLexer (.ofWindow lexicon buffer offset size) b) (.inl rfl)
  have hsymbols : ss.length ≤ (Lexer.ofWindow lexicon buffer offset size).remaining :=
    hle.trans (Lexer.length_stream_le _)
  refine ⟨ss, outcome, hcourse, hsymbols.trans (Symbol.length_decode_le window), hcourse.results,
    ?_, ?_⟩
  · intro b' hb'
    obtain ⟨m, rfl, hrun⟩ := hmachine b' hb'
    exact Machine.completes_of_run? h hrun
  · rintro rfl
    let q := Parser.ofLexer (.ofBytes lexicon window) {}
    have hsame (n : Nat) : p.size = q.size ∧ p.answer n = q.answer n ∧
        (p.after n).graph? = (q.after n).graph? :=
      Parser.answer_ofWindow lexicon buffer offset size {} n
    have hrun : q.run (q.size + 1) =
        (outcome.map fun _ => false).map fun _ => q.after (ss.length + 1) := by
      apply Parser.run_of_answers (k := ss.length)
      · intro i hi
        rw [← (hsame i).2.1]
        exact (hcourse.reads i hi).1
      · rw [← (hsame 0).1]
        exact Nat.lt_succ_of_le hle
      · rw [← (hsame ss.length).2.1]
        exact hcourse.stops
      · cases outcome <;> rintro ⟨⟩
    obtain ⟨hbuilder, hgraph⟩ := hcourse.results (ss.length + 1)
    rw [(hsame _).2.2, hbuilder, if_pos (Nat.lt_succ_self _)] at hgraph
    change (q.run (q.size + 1)).map (fun q => q.graph?.getD {}) = _
    rw [hrun]
    cases outcome with
    | error e => rfl
    | ok b' =>
      simp only [Except.map, hgraph]
      rfl

/-- The second line is no statement, so the parser has failed after the first one, and never reads
the third. -/
theorem updates_end_secondLine :
    let p := Parser.ofLexer (.ofBytes .standard (Utf8.encode "a = 1\nb c\nd = 2")) {}
    p.answer 0 = .ok true ∧ (∃ e, p.answer 1 = .error e) ∧
      ∀ n, 1 < n → p.answer n = .ok false ∧ (p.after n).isFailed = true ∧
        (p.after n).graph? = none := by
  intro p
  have hsecond : (p.answer 1).toOption = none := by decide +kernel
  have hfirst : (p.answer 0).toOption = some true := by decide +kernel
  obtain ⟨ss, outcome, hcourse, -, hresults, -, -⟩ :=
    updates_end .standard (Utf8.encode "a = 1\nb c\nd = 2") 0 _ {} rfl
  change p.Course ss outcome at hcourse
  have hlength : ss.length = 1 := by
    rcases Nat.lt_trichotomy ss.length 1 with hlt | heq | hgt
    · have hstops := hcourse.stops
      rw [Nat.lt_one_iff.1 hlt] at hstops
      rw [hstops] at hfirst
      cases outcome <;> cases hfirst
    · exact heq
    · rw [(hcourse.reads 1 hgt).1] at hsecond
      cases hsecond
  have hstops := hcourse.stops
  rw [hlength] at hstops
  cases outcome with
  | ok b =>
    rw [hstops] at hsecond
    cases hsecond
  | error e =>
    refine ⟨toOption_eq_some.1 hfirst, ⟨e, hstops⟩, ?_⟩
    intro n hn
    obtain ⟨hanswer, hfailed⟩ := hcourse.rests n (hlength ▸ hn)
    obtain ⟨hbuilder, hgraph⟩ := hresults n
    refine ⟨hanswer, hfailed, hgraph.trans ?_⟩
    rw [hbuilder]
    split_ifs <;> rfl

end ScriptGraph
