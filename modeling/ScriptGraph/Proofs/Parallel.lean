import ScriptGraph.Proofs.Reading
import ScriptGraph.Proofs.References
import ScriptGraph.Proofs.Transport

/-!
# Parsers side by side

Streams whose tokens have the same kinds and bytes are parsed alike, wherever the tokens stand. A
correspondence says which lexemes, errors and terms of two parses stand for each other. Every part
of the grammar reads corresponding lexemes alike and issues corresponding instructions, so that two
parsers stay side by side, request by request.
-/

namespace ScriptGraph

/-! ### Correspondences -/

/-- What stands for what in two parses of the same tokens. The places of line breaks and of the end
token are free, since no term stands there. -/
structure Correspondence where
  /-- What happens to the terms. -/
  transport : Transport
  lexeme : Lexeme → Lexeme → Prop
  error : Error → Error → Prop
  place_beginning : transport.place .beginning = .beginning
  token {x y : Lexeme} (h : lexeme x y) : y.token = x.token
  bytes {x y : Lexeme} (h : lexeme x y) (hx : x.token ≠ .eof) : y.bytes = x.bytes
  location {x y : Lexeme} (h : lexeme x y) (heof : x.token ≠ .eof) (hbreak : x.token ≠ .breakLine) :
    y.location = transport.place x.location
  unexpected {x y : Lexeme} (h : lexeme x y) (expectation got : String) :
    error (.unexpected x.location expectation got) (.unexpected y.location expectation got)
  unsupported {x y : Lexeme} (h : lexeme x y) (what : String) :
    error (.unsupported x.location what) (.unsupported y.location what)
  move (e : Error) : error e (e.move transport.place)

namespace Correspondence

variable {c : Correspondence} {x y : Lexeme}

lemma isAssign_eq (h : c.lexeme x y) : y.isAssign = x.isAssign := by
  rw [Lexeme.isAssign, Lexeme.isAssign, c.token h]
  by_cases hx : x.token = .eof
  · simp [hx]
  · rw [c.bytes h hx]

lemma describe_eq (h : c.lexeme x y) : y.describe = x.describe := by
  rw [Lexeme.describe, Lexeme.describe, c.token h]
  by_cases hx : x.token = .eof
  · rw [if_pos hx, if_pos hx]
  · rw [Lexeme.text, Lexeme.text, c.bytes h hx]

lemma value_eq (h : c.lexeme x y) (hx : x.token ≠ .eof) : y.value = x.value := by
  rw [Lexeme.value, Lexeme.value, Lexeme.text, Lexeme.text, c.token h, c.bytes h hx]

lemma name_eq (h : c.lexeme x y) (hx : x.token ≠ .eof) : y.name = x.name := by
  rw [Lexeme.name, Lexeme.name, Lexeme.text, Lexeme.text, value_eq h hx, c.bytes h hx]

/-- How the ends of two streams stand for each other. -/
inductive Endings (c : Correspondence) : Ending → Ending → Prop
  | finished {x y : Lexeme} (h : c.lexeme x y) : Endings c (.finished x) (.finished y)
  | broken {e d : Error} (h : c.error e d) (x y : Lexeme) : Endings c (.broken e x) (.broken d y)

/-- Whether two readings issue corresponding instructions and end alike, in results that are related
with corresponding lexemes left. -/
structure Readings (c : Correspondence) (R : α → β → Prop) (ending : Ending) (r : Reading α)
    (r' : Reading β) : Prop where
  issued : r'.trace.instructions = r.trace.instructions.map (.move c.transport)
  result : Alongside (fun f f' => c.error f.error f'.error)
    (fun x x' => R x.1 x'.1 ∧ List.Forall₂ c.lexeme x.2 x'.2 ∧ Stands ending x.2)
    r.result r'.result

/-- Whether two grammars read corresponding lexemes alike. -/
def Reads (c : Correspondence) (R : α → β → Prop) (g : Grammar α) (g' : Grammar β) : Prop :=
  ∀ ⦃ending ending' : Ending⦄ ⦃ts ts' : List Lexeme⦄, c.Endings ending ending' →
    List.Forall₂ c.lexeme ts ts' → Stands ending ts →
    c.Readings R ending (g ending ts) (g' ending' ts')

end Correspondence

/-! ### Terms that stay where they are -/

/-- Nothing moves. -/
def Transport.identity : Transport where
  function := id
  location := id
  place := id
  graph := id
  location_some l := Eq.refl (some l)
  location_unknown := Eq.refl Location.unknown
  graph_addFunction g f := by
    have hroot : f.root.rename { function := id, location := id } = f.root := f.root.rename_id
    rw [hroot]
    rfl
  last_graph _ _ := rfl
  graph_addEntry _ _ := rfl
  entry_graph _ := rfl

lemma Transport.place_identity : identity.place .beginning = .beginning := rfl

lemma BlockScope.rename_id (b : BlockScope) : b.rename {} = b := by
  obtain ⟨locals, statements, result, inherits, firstLocal⟩ := b
  have hresult : result.map (Term.rename {}) = result := by
    cases result with
    | none => rfl
    | some t => rw [Option.map_some, t.rename_id]
  rw [rename, Term.renameAll_id, hresult]

lemma Builder.moved_identity (b : Builder) : Moved .identity b b := by
  have hblocks : b.blocks.live.map (BlockScope.rename {}) = b.blocks.live := by
    rw [funext BlockScope.rename_id]
    exact List.map_id _
  exact (congrArg (View.mk _ · _) hblocks).symm

lemma Alongside.eq {x y : Except ε α} (h : Alongside Eq Eq x y) : y = x := by
  cases h with
  | error h => rw [h]
  | ok h => rw [h]

/-! ### Grammars -/

namespace Grammar

open Correspondence (describe_eq isAssign_eq name_eq value_eq)

variable {c : Correspondence} {α β γ δ : Type} {R : α → β → Prop} {S : γ → δ → Prop}
  {g : Grammar α} {g' : Grammar β}

lemma currentOf_alongside {ending ending' : Ending} {ts ts' : List Lexeme}
    (he : c.Endings ending ending') (hts : List.Forall₂ c.lexeme ts ts') (hs : Stands ending ts) :
    c.lexeme (currentOf ending ts) (currentOf ending' ts') := by
  cases hts with
  | cons h _ => exact h
  | nil =>
    obtain ⟨l, rfl⟩ := hs rfl
    cases he with
    | finished h => exact h

lemma alongside_pure {x : α} {y : β} (h : R x y) : c.Reads R (pure x) (pure y) := by
  intro ending ending' ts ts' _ hts hs
  exact ⟨rfl, .ok ⟨h, hts, hs⟩⟩

lemma alongside_unit : c.Reads Eq (pure () : Grammar Unit) (pure ()) := alongside_pure rfl

lemma alongside_current : c.Reads c.lexeme current current := by
  intro ending ending' ts ts' he hts hs
  exact ⟨rfl, .ok ⟨currentOf_alongside he hts hs, hts, hs⟩⟩

lemma alongside_issue (i : Instruction) : c.Reads Eq (issue i) (issue (i.move c.transport)) := by
  intro ending ending' ts ts' _ hts hs
  exact ⟨rfl, .ok ⟨rfl, hts, hs⟩⟩

lemma alongside_fail {error : Lexeme → Error}
    (h : ∀ x y, c.lexeme x y → c.error (error x) (error y)) :
    c.Reads R (fail error) (fail error) := by
  intro ending ending' ts ts' he hts hs
  exact ⟨rfl, .error (h _ _ (currentOf_alongside he hts hs))⟩

lemma alongside_expected (expectation : String) :
    c.Reads R (expected expectation) (expected expectation) := by
  apply alongside_fail
  intro x y h
  rw [describe_eq h]
  exact c.unexpected h _ _

lemma alongside_unsupported {what : Lexeme → String}
    (hwhat : ∀ x y, c.lexeme x y → what y = what x) :
    c.Reads R (unsupported what) (unsupported what) := by
  apply alongside_fail
  intro x y h
  rw [hwhat x y h]
  exact c.unsupported h _

lemma alongside_standAt {ls ls' : List Lexeme} {ending ending' : Ending}
    (he : c.Endings ending ending') (hls : List.Forall₂ c.lexeme ls ls') (ts ts' : List Lexeme) :
    c.Readings Eq ending (standAt ls ending ts) (standAt ls' ending' ts') := by
  cases hls with
  | cons h hls => exact ⟨rfl, .ok ⟨rfl, .cons h hls, stands_cons _ _ _⟩⟩
  | nil =>
    cases he with
    | finished h => exact ⟨rfl, .ok ⟨rfl, .nil, fun _ => ⟨_, rfl⟩⟩⟩
    | broken h x y => exact ⟨rfl, .error h⟩

lemma alongside_start : c.Reads Eq start start := by
  intro ending ending' ts ts' he hts _
  exact alongside_standAt he hts ts ts'

lemma forall₂_tail {r : Lexeme → Lexeme → Prop} {ts ts' : List Lexeme}
    (h : List.Forall₂ r ts ts') : List.Forall₂ r ts.tail ts'.tail := by
  cases h with
  | nil => exact .nil
  | cons _ h => exact h

lemma alongside_advance : c.Reads Eq advance advance := by
  intro ending ending' ts ts' he hts _
  exact alongside_standAt he (forall₂_tail hts) ts ts'

lemma forall₂_dropWhile {p : Lexeme → Bool} (hp : ∀ x y, c.lexeme x y → p y = p x)
    {ts ts' : List Lexeme} (h : List.Forall₂ c.lexeme ts ts') :
    List.Forall₂ c.lexeme (ts.dropWhile p) (ts'.dropWhile p) := by
  induction h with
  | nil => exact .nil
  | @cons x y ts ts' hx hts ih =>
    rw [List.dropWhile_cons, List.dropWhile_cons, hp x y hx]
    split
    · exact ih
    · exact .cons hx hts

lemma alongside_skipBreaks : c.Reads Eq skipBreaks skipBreaks := by
  intro ending ending' ts ts' he hts hs
  cases hts with
  | nil => exact ⟨rfl, .ok ⟨rfl, .nil, hs⟩⟩
  | @cons x y ts ts' hx hts =>
    refine alongside_standAt he (forall₂_dropWhile ?_ (.cons hx hts)) (x :: ts) (y :: ts')
    intro x y h
    rw [c.token h]

/-- Reading one part after another. -/
lemma alongside_bind {f : α → Grammar γ} {f' : β → Grammar δ} (hg : c.Reads R g g')
    (hf : ∀ x y, R x y → c.Reads S (f x) (f' y)) : c.Reads S (g >>= f) (g' >>= f') := by
  intro ending ending' ts ts' he hts hs
  change c.Readings S ending (Grammar.bind g f ending ts) (Grammar.bind g' f' ending' ts')
  obtain ⟨htrace, hresult⟩ := hg he hts hs
  rw [Grammar.bind, Grammar.bind]
  revert htrace hresult
  generalize g ending ts = r, g' ending' ts' = r'
  obtain ⟨trace, result⟩ := r
  obtain ⟨trace', result'⟩ := r'
  rintro htrace (herror | @⟨x, y, hx, hrest, hs⟩)
  · exact ⟨htrace, .error herror⟩
  · obtain ⟨hnext, hresult⟩ := hf _ _ hx he hrest hs
    refine ⟨?_, hresult⟩
    simp only [Trace.instructions_append, List.map_append]
    exact congr (congrArg _ htrace) hnext

/-- Reading two parts of which the first one yields nothing. -/
lemma alongside_then {a a' : Grammar Unit} {f f' : Unit → Grammar γ} {T : γ → γ → Prop}
    (ha : c.Reads Eq a a') (hf : c.Reads T (f ()) (f' ())) : c.Reads T (a >>= f) (a' >>= f') :=
  alongside_bind ha fun _ _ _ => hf

/-- Looking at the current lexeme before going on. -/
lemma alongside_current_bind {f f' : Lexeme → Grammar γ} {T : γ → γ → Prop}
    (hf : ∀ x y, c.lexeme x y → c.Reads T (f x) (f' y)) :
    c.Reads T (current >>= f) (current >>= f') :=
  alongside_bind alongside_current hf

lemma alongside_expect (token : Token) (expectation : String) :
    c.Reads Eq (expect token expectation) (expect token expectation) := by
  apply alongside_current_bind
  intro x y h
  rw [c.token h]
  split
  · exact alongside_advance
  · exact alongside_expected _

lemma alongside_ident (expectation : String) :
    c.Reads (fun r r' => r' = (r.1, c.transport.place r.2)) (ident expectation)
      (ident expectation) := by
  apply alongside_bind alongside_current
  intro x y h
  rw [c.token h]
  split
  · next hx =>
    apply alongside_bind alongside_advance
    intro _ _ _
    apply alongside_pure
    rw [name_eq h (by rw [hx]; decide), c.location h (by rw [hx]; decide) (by rw [hx]; decide)]
  · exact alongside_expected _

lemma alongside_refuseUnary : c.Reads Eq refuseUnary refuseUnary := by
  apply alongside_current_bind
  intro x y h
  rw [c.token h]
  split
  · apply alongside_unsupported
    intro x y h
    rw [describe_eq h]
  · exact alongside_unit

lemma alongside_refuseSuffix : c.Reads Eq refuseSuffix refuseSuffix := by
  apply alongside_current_bind
  intro x y h
  rw [c.token h, isAssign_eq h]
  split_ifs
  · exact alongside_unsupported fun _ _ _ => rfl
  · exact alongside_unsupported fun _ _ _ => rfl
  · apply alongside_unsupported
    intro x y h
    rw [describe_eq h]
  · exact alongside_unit

lemma alongside_endStatement (closing : Token) :
    c.Reads Eq (endStatement closing) (endStatement closing) := by
  apply alongside_current_bind
  intro x y h
  rw [c.token h]
  split_ifs
  · exact alongside_advance
  · exact alongside_unit
  · exact alongside_expected _

lemma alongside_parameterNames (n : Nat) :
    c.Reads Eq (parameterNames n) (parameterNames n) := by
  induction n with
  | zero => exact alongside_expected _
  | succ n ih =>
    apply alongside_bind (alongside_ident _)
    rintro ⟨name, l⟩ _ rfl
    apply alongside_then (alongside_issue (.parameter name l))
    apply alongside_current_bind
    intro x y h
    rw [c.token h]
    split
    · exact alongside_then alongside_advance ih
    · exact alongside_unit

lemma alongside_parameters (n : Nat) : c.Reads Eq (parameters n) (parameters n) := by
  apply alongside_then alongside_advance
  apply alongside_current_bind
  intro x y h
  dsimp only
  rw [c.token h]
  split
  · exact alongside_then (alongside_parameterNames n) (alongside_expect _ _)
  · exact alongside_expect _ _

/-- The readers with some fuel read corresponding lexemes alike. -/
structure AllAlongside (c : Correspondence) (n : Nat) : Prop where
  statement : c.Reads Eq (statement n) (statement n)
  expression : c.Reads Eq (expression n) (expression n)
  term : c.Reads Eq (term n) (term n)
  statements : c.Reads Eq (statements n) (statements n)

lemma alongside_statement {n : Nat} (ih : AllAlongside c n) :
    c.Reads Eq (statement (n + 1)) (statement (n + 1)) := by
  apply alongside_current_bind
  intro x y h
  rw [c.token h]
  split
  · apply alongside_then alongside_advance
    apply alongside_bind (alongside_ident _)
    rintro ⟨name, l⟩ _ rfl
    apply alongside_current_bind
    intro next next' hnext
    dsimp only
    rw [isAssign_eq hnext]
    split
    · apply alongside_then alongside_advance
      exact alongside_then ih.expression (alongside_issue (.define name l))
    · exact alongside_issue (.declare name l)
  · exact ih.expression

lemma alongside_expression {n : Nat} (ih : AllAlongside c n) :
    c.Reads Eq (expression (n + 1)) (expression (n + 1)) := by
  apply alongside_then alongside_refuseUnary
  apply alongside_then ih.term
  apply alongside_then alongside_refuseSuffix
  apply alongside_current_bind
  intro x y h
  rw [isAssign_eq h]
  split
  · apply alongside_then alongside_advance
    exact alongside_then ih.expression (alongside_issue .assign)
  · exact alongside_unit

lemma alongside_term {n : Nat} (ih : AllAlongside c n) :
    c.Reads Eq (term (n + 1)) (term (n + 1)) := by
  have hblock (i : Instruction) :
      c.Reads Eq
        (expect .braceLeft "expected `\x7b`" >>= fun _ => statements n >>= fun _ => issue i)
        (expect .braceLeft "expected `\x7b`" >>= fun _ =>
          statements n >>= fun _ => issue (i.move c.transport)) :=
    alongside_then (alongside_expect _ _) (alongside_then ih.statements (alongside_issue i))
  apply alongside_current_bind
  intro x y h
  rw [c.token h]
  have hlocation {t : Token} (hx : x.token = t) (heof : t ≠ .eof) (hbreak : t ≠ .breakLine) :
      y.location = c.transport.place x.location :=
    c.location h (hx ▸ heof) (hx ▸ hbreak)
  have hvalue {t : Token} (hx : x.token = t) (heof : t ≠ .eof) (hbreak : t ≠ .breakLine) :
      c.Reads Eq (issue (.constant x.value x.location) >>= fun _ => advance)
        (issue (.constant y.value y.location) >>= fun _ => advance) := by
    rw [value_eq h (hx ▸ heof), hlocation hx heof hbreak]
    exact alongside_then (alongside_issue (.constant x.value x.location)) alongside_advance
  split
  · next hx => exact hvalue hx (by decide) (by decide)
  · next hx => exact hvalue hx (by decide) (by decide)
  · next hx =>
    rw [name_eq h (by rw [hx]; decide), hlocation hx (by decide) (by decide)]
    exact alongside_then (alongside_issue (.get x.name x.location)) alongside_advance
  · apply alongside_then alongside_advance
    exact alongside_then ih.expression (alongside_expect _ _)
  · next hx =>
    rw [hlocation hx (by decide) (by decide)]
    apply alongside_then alongside_advance
    exact alongside_then (alongside_issue (.pushBlock true)) (hblock (.popBlock x.location))
  · next hx =>
    rw [hlocation hx (by decide) (by decide)]
    apply alongside_then alongside_advance
    apply alongside_then (alongside_issue .pushFunction)
    apply alongside_current_bind
    intro next next' hnext
    dsimp only
    rw [c.token hnext]
    split
    · exact alongside_then (alongside_parameters n) (hblock (.popFunction x.location))
    · exact hblock (.popFunction x.location)
  · exact alongside_unsupported fun _ _ _ => rfl
  · exact alongside_unsupported fun _ _ _ => rfl
  · split
    · exact alongside_unsupported fun _ _ => describe_eq
    · exact alongside_expected _

lemma alongside_statements {n : Nat} (ih : AllAlongside c n) :
    c.Reads Eq (statements (n + 1)) (statements (n + 1)) := by
  apply alongside_then alongside_skipBreaks
  apply alongside_current_bind
  intro x y h
  rw [c.token h]
  split_ifs
  · exact alongside_advance
  · exact alongside_expected _
  · apply alongside_then ih.statement
    apply alongside_then (alongside_issue .statement)
    exact alongside_then (alongside_endStatement _) ih.statements

/-- Every reader reads corresponding lexemes alike. -/
theorem allAlongside (c : Correspondence) (n : Nat) : AllAlongside c n := by
  induction n with
  | zero =>
    exact ⟨alongside_expected _, alongside_expected _, alongside_expected _, alongside_expected _⟩
  | succ n ih =>
    exact ⟨alongside_statement ih, alongside_expression ih, alongside_term ih,
      alongside_statements ih⟩

lemma alongside_unitStep (n : Nat) (isFirst : Bool) :
    c.Reads Eq (unitStep n isFirst) (unitStep n isFirst) := by
  have hstep : c.Reads Eq (unitStep n false) (unitStep n false) := by
    apply alongside_then alongside_skipBreaks
    apply alongside_current_bind
    intro x y h
    rw [c.token h]
    split
    · have hpop := alongside_issue (c := c) (.popFunction .beginning)
      rw [Instruction.move, c.place_beginning] at hpop
      exact alongside_then hpop (alongside_pure rfl)
    · apply alongside_then (allAlongside c n).statement
      apply alongside_then (alongside_issue .statement)
      exact alongside_then (alongside_endStatement _) (alongside_pure rfl)
  cases isFirst with
  | false => exact hstep
  | true =>
    exact alongside_then (alongside_issue .pushFunction) (alongside_then alongside_start hstep)

end Grammar

/-! ### Parsers -/

namespace Parser

/-- Instructions that have been moved do the same to a machine that has been moved. -/
lemma perform_moved {μ : Transport} {es es' : List Event}
    (hes : es'.map Event.instruction = (es.map Event.instruction).map (.move μ)) {a s : Machine}
    (h : Machine.Moved μ a s) :
    Alongside (fun f f' => f'.error = f.error.move μ.place) (Machine.Moved μ) (perform a es)
      (perform s es') := by
  induction es generalizing es' a s with
  | nil =>
    rw [List.map_eq_nil_iff.1 hes]
    exact .ok h
  | cons e es ih =>
    obtain ⟨e', es', rfl, he, hes⟩ := List.map_eq_cons_iff.1 hes
    obtain ⟨hmachine, hresult⟩ := h.step e.instruction
    rw [← he] at hmachine hresult
    simp only [perform]
    revert hmachine hresult
    rcases a.step e.instruction with ⟨a', x⟩
    rcases s.step e'.instruction with ⟨s', y⟩
    rintro hmachine (herror | -)
    · exact .error herror
    · exact ih hes hmachine

/-- The parser after some requests. -/
def after (p : Parser) : Nat → Parser
  | 0 => p
  | n + 1 => p.update.1.after n

/-- The answer of a parser to the next request after `n` others. -/
def answer (p : Parser) : Nat → Except Error Bool
  | 0 => p.update.2
  | n + 1 => p.update.1.answer n

lemma ending_update (p : Parser) : p.update.1.ending = p.ending := by
  rw [Parser.update]
  split
  · rfl
  · dsimp only
    split <;> rfl

/-- Whether a second parser has come as far with corresponding lexemes as a first one. -/
structure Beside (c : Correspondence) (p q : Parser) : Prop where
  size : q.size = p.size
  lexemes : List.Forall₂ c.lexeme p.lexemes q.lexemes
  ending : c.Endings p.ending q.ending
  builder : Builder.Moved c.transport p.builder q.builder
  phase : q.phase = p.phase
  stands : p.phase = .parsing → Stands p.ending p.lexemes

namespace Beside

variable {c : Correspondence} {p q : Parser}

/-- Parsers of corresponding streams start side by side. -/
lemma ofLexer {l l' : Lexer} {b b' : Builder}
    (hlexemes : List.Forall₂ c.lexeme l.stream.lexemes l'.stream.lexemes)
    (hending : c.Endings l.stream.ending l'.stream.ending) (hb : Builder.Moved c.transport b b') :
    Beside c (.ofLexer l b) (.ofLexer l' b') :=
  ⟨hlexemes.length_eq.symm, hlexemes, hending, hb, rfl, by rintro ⟨⟩⟩

/-- The next statement is read alike, also where there is none. -/
lemma unitStep (h : Beside c p q) (hphase : p.phase = .fresh ∨ p.phase = .parsing) (n : Nat) :
    c.Readings Eq p.ending (Grammar.unitStep n (p.phase = .fresh) p.ending p.lexemes)
      (Grammar.unitStep n (q.phase = .fresh) q.ending q.lexemes) := by
  rw [h.phase]
  by_cases hs : Stands p.ending p.lexemes
  · exact Grammar.alongside_unitStep n _ h.ending h.lexemes hs
  · -- The stream breaks at its first lexeme, at which the parser has not looked yet.
    have hfresh : p.phase = .fresh := hphase.resolve_right fun hp => hs (h.stands hp)
    simp only [Stands, not_forall, not_exists] at hs
    obtain ⟨hnil, hbroken⟩ := hs
    have hlexemes := h.lexemes
    have hending := h.ending
    rw [hnil, List.forall₂_nil_left_iff] at hlexemes
    rw [hfresh, hnil, hlexemes]
    revert hbroken hending
    generalize p.ending = ending, q.ending = ending'
    rintro hbroken (hlexeme | herror)
    · exact absurd rfl (hbroken _)
    · exact ⟨rfl, .error herror⟩

lemma abandon (h : Beside c p q) {f f' : Failure} (hf : c.error f.error f'.error) :
    Beside c (p.abandon f).1 (q.abandon f').1 ∧
      Alongside c.error Eq (p.abandon f).2 (q.abandon f').2 :=
  ⟨⟨h.size, h.lexemes, h.ending, h.builder, rfl, by rintro ⟨⟩⟩, .error hf⟩

/-- One request: both parsers answer alike and stay side by side. -/
lemma update (h : Beside c p q) :
    Beside c p.update.1 q.update.1 ∧ Alongside c.error Eq p.update.2 q.update.2 := by
  have hstopped : (q.isDone ∨ q.isFailed) ↔ (p.isDone ∨ p.isFailed) := by
    simp only [isDone, isFailed, h.phase]
  by_cases hstop : p.isDone = true ∨ p.isFailed = true
  · rw [Parser.update, if_pos hstop, Parser.update, if_pos (hstopped.2 hstop)]
    exact ⟨h, .ok rfl⟩
  rw [Parser.update, if_neg hstop, Parser.update, if_neg (mt hstopped.1 hstop)]
  have hphase : p.phase = .fresh ∨ p.phase = .parsing := by
    simp only [isDone, isFailed, decide_eq_true_eq, not_or] at hstop
    cases hp : p.phase <;> simp_all
  have hfuel : q.fuel = p.fuel := by rw [fuel, fuel, h.size]
  have hreading := h.unitStep hphase p.fuel
  have hmachine : Machine.Moved c.transport { builder := p.builder } { builder := q.builder } :=
    ⟨h.builder, rfl⟩
  have hperform := perform_moved hreading.issued hmachine
  have hresult := hreading.result
  rw [hfuel]
  dsimp only
  revert hperform hresult
  generalize Grammar.unitStep p.fuel _ p.ending p.lexemes = r,
    Grammar.unitStep p.fuel _ q.ending q.lexemes = r'
  generalize perform { builder := p.builder } r.trace.toList = x,
    perform { builder := q.builder } r'.trace.toList = y
  rintro (hf | hm)
  · intro _
    apply h.abandon
    rw [hf]
    exact c.move _
  · generalize r.result = x, r'.result = y
    rintro (hf | @⟨⟨more, ts⟩, ⟨_, ts'⟩, rfl, hts, hs⟩)
    · exact h.abandon hf
    · exact ⟨⟨h.size, hts, h.ending, hm.builder, rfl, fun _ => hs⟩, .ok rfl⟩

/-- Any number of requests: both parsers answer the next one alike and are side by side. -/
lemma after (h : Beside c p q) (n : Nat) :
    Beside c (p.after n) (q.after n) ∧ Alongside c.error Eq (p.answer n) (q.answer n) := by
  induction n generalizing p q with
  | zero => exact ⟨h, h.update.2⟩
  | succ n ih => exact ih h.update.1

lemma isDone (h : Beside c p q) : q.isDone = p.isDone := by
  rw [Parser.isDone, Parser.isDone, h.phase]

lemma graph? (h : Beside c p q) : q.graph? = p.graph?.map c.transport.graph := by
  rw [Parser.graph?, Parser.graph?, h.isDone, h.builder.graph]
  cases p.isDone <;> rfl

/-- Parsers that run side by side fail in both or in none. -/
lemma run (h : Beside c p q) (n : Nat) : Alongside c.error (Beside c) (p.run n) (q.run n) := by
  induction n generalizing p q with
  | zero => exact .ok h
  | succ n ih =>
    obtain ⟨hnext, hanswer⟩ := h.update
    simp only [Parser.run]
    revert hnext hanswer
    rcases p.update with ⟨p', x⟩
    rcases q.update with ⟨q', y⟩
    rintro hnext (herror | @⟨more, _, rfl⟩)
    · exact .error herror
    · cases more with
      | true => exact ih hnext
      | false => exact .ok hnext

end Beside

end Parser

end ScriptGraph
