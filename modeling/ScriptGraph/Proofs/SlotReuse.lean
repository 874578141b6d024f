import ScriptGraph.Proofs.Meaning

/-!
# Reuse of slots

The slots of a closed block are handed out again, and a declaration without a value leaves in its
slot what a dead variable left there. To tell such values apart, code is executed with every value
tracked: a declaration without a value marks the content of its slot as stale, and the mark goes
where the value goes. Executing by slots forgets the marks; executing by variables sees undefined in
place of what is stale. So reuse of slots can be observed exactly if something stale that is not
undefined ends up in a global or in the result.
-/

namespace ScriptGraph

open Resolved Discipline

/-- A value, and whether it was left behind in a slot by a variable that is gone. -/
structure Tracked where
  value : Value
  stale : Bool

/-- What there would be in place of a value if no slot were used twice. -/
def Tracked.seen (a : Tracked) : Value := if a.stale then .undefined else a.value

/-- Locals share slots, and a declaration alone makes the content of its slot stale. -/
def Discipline.tracked : Discipline Tracked where
  value v := ⟨v, false⟩
  place := Local.slot
  fresh a := { a with stale := true }

@[simp] lemma Tracked.seen_value (v : Value) : (tracked.value v).seen = v := rfl

/-! ### By slots -/

/-- The store without marks. -/
def Store.forget (s : Store Tracked) : Store Value :=
  ⟨fun i => (s.locals i).value, fun n => (s.globals n).value⟩

lemma forget_setLocal (s : Store Tracked) (i : Nat) (a : Tracked) :
    (s.setLocal i a).forget = s.forget.setLocal i a.value := by
  simp only [Store.forget, Store.setLocal, Store.mk.injEq, and_true]
  funext k
  by_cases hk : k = i
  · simp [hk]
  · simp [hk]

lemma forget_setGlobal (s : Store Tracked) (n : String) (a : Tracked) :
    (s.setGlobal n a).forget = s.forget.setGlobal n a.value := by
  simp only [Store.forget, Store.setGlobal, Store.mk.injEq, true_and]
  funext k
  by_cases hk : k = n
  · simp [hk]
  · simp [hk]

lemma forget_store (x : Variable) (y? : Option Variable) (a : Tracked) (s : Store Tracked) :
    store bySlot x y? a.value s.forget =
      ((store tracked x y? a s).1.forget, (store tracked x y? a s).2.value) := by
  have hwrite : bySlot.write s.forget a.value x = (tracked.write s a x).forget := by
    cases x with
    | bound x => exact (forget_setLocal s x.slot a).symm
    | free n => exact (forget_setGlobal s n a).symm
  simp only [store, hwrite]
  split <;> rfl

mutual

/-- Executing by slots is executing with tracked values and forgetting the marks. -/
theorem exec_bySlot (r : Resolved) (s : Store Tracked) :
    r.exec bySlot s.forget = ((r.exec tracked s).1.forget, (r.exec tracked s).2.value) := by
  match r with
  | .constant v l | .function source arity count body l => rfl
  | .read x l => cases x <;> rfl
  | .assign t v =>
    simp only [exec]
    rw [exec_bySlot t s]
    simp only
    rw [exec_bySlot v]
    cases t.denotes? with
    | none => rfl
    | some x => exact forget_store x _ _ _
  | .declare x l =>
    simp only [exec]
    rw [forget_setLocal]
    simp [tracked, bySlot, Store.forget, Store.setLocal]
  | .define x l v =>
    simp only [exec]
    rw [exec_bySlot v]
    exact forget_store (.bound x) _ _ _
  | .scope body l => exact execAll_bySlot body s

theorem execAll_bySlot (rs : List Resolved) (s : Store Tracked) :
    execAll bySlot rs s.forget =
      ((execAll tracked rs s).1.forget, (execAll tracked rs s).2.value) := by
  match rs with
  | [] => rfl
  | [r] => exact exec_bySlot r s
  | r :: r' :: rs =>
    simp only [execAll]
    rw [exec_bySlot r s]
    exact execAll_bySlot (r' :: rs) _

end

/-! ### By variables -/

/-- Whether a tracked store and a store by variables hold the same in the locals of a frame and in
the globals, up to what is stale. -/
structure Agree (f : Frame) (t : Store Tracked) (s : Store Value) : Prop where
  locals : ∀ x ∈ f.locals, (t.locals x.slot).seen = s.locals x.declaration
  globals : ∀ n, (t.globals n).seen = s.globals n

variable {f f' : Frame} {t : Store Tracked} {s : Store Value}

/-- A write keeps stores in agreement if the same visible local has its slot and its declaration,
or none has. -/
lemma Agree.setLocal (h : Agree f t s) {x : Local} (a : Tracked)
    (hx : ∀ y ∈ f.locals, y.slot = x.slot ↔ y.declaration = x.declaration) :
    Agree f (t.setLocal x.slot a) (s.setLocal x.declaration a.seen) := by
  refine ⟨?_, h.globals⟩
  intro y hy
  by_cases hslot : y.slot = x.slot
  · have hdecl := (hx y hy).1 hslot
    simp [Store.setLocal, hslot, hdecl]
  · have hdecl : y.declaration ≠ x.declaration := fun hd => hslot ((hx y hy).2 hd)
    simp [Store.setLocal, hslot, hdecl, h.locals y hy]

lemma Agree.setGlobal (h : Agree f t s) (n : String) (a : Tracked) :
    Agree f (t.setGlobal n a) (s.setGlobal n a.seen) := by
  refine ⟨h.locals, ?_⟩
  intro m
  by_cases hm : m = n
  · simp [Store.setGlobal, hm]
  · simp [Store.setGlobal, hm, h.globals m]

/-- A new local takes a slot and a declaration of its own. -/
lemma Agree.declare? (h : Agree f t s) (hf : f.Proper) {n : String} (hd : f.declare? n = some f')
    (a : Tracked) :
    Agree f' (t.setLocal f.fresh.slot a) (s.setLocal f.fresh.declaration a.seen) := by
  have hapart : ∀ y ∈ f.locals, y.slot ≠ f.fresh.slot ∧ y.declaration ≠ f.fresh.declaration :=
    fun y hy => ⟨(hf.slot_lt hy).ne, (hf.declared y hy).ne⟩
  have hold : Agree f (t.setLocal f.fresh.slot a) (s.setLocal f.fresh.declaration a.seen) :=
    h.setLocal a fun y hy => iff_of_false (hapart y hy).1 (hapart y hy).2
  refine ⟨?_, h.globals⟩
  intro y hy
  rw [Frame.locals_declare? hd] at hy
  rcases List.mem_cons.1 hy with rfl | hy
  · simp [Store.setLocal]
  · exact hold.locals y hy

lemma Agree.enter (h : Agree f t s) : Agree f.enter t s := ⟨h.locals, h.globals⟩

lemma Agree.leave {inner : Frame} (h : Agree inner t s) (hf : f.enter.Follows inner) :
    Agree (f.leave inner) t s :=
  ⟨fun x hx => h.locals x (hf.mem_locals hx), h.globals⟩

lemma Agree.read (h : Agree f t s) (n : String) :
    (tracked.read t (f.denote n)).seen = byVariable.read s (f.denote n) := by
  rw [Frame.denote]
  cases hfind : f.find? n with
  | none => exact h.globals n
  | some x => exact h.locals x (Frame.mem_locals_of_find? hfind)

/-- The same visible local has the slot and the declaration of a variable, or none has. A global is
no local. -/
def Variable.Distinguished (f : Frame) : Variable → Prop
  | bound x => ∀ y ∈ f.locals, y.slot = x.slot ↔ y.declaration = x.declaration
  | free _ => True

lemma Agree.write (h : Agree f t s) {x : Variable} (hx : x.Distinguished f) (a : Tracked) :
    Agree f (tracked.write t a x) (byVariable.write s a.seen x) := by
  cases x with
  | bound x => exact h.setLocal a hx
  | free n => exact h.setGlobal n a

lemma seen_store (x : Variable) (y? : Option Variable) (a : Tracked) (t : Store Tracked)
    (s : Store Value) : (store tracked x y? a t).2.seen = (store byVariable x y? a.seen s).2 := by
  simp only [Resolved.store]
  split <;> rfl

namespace Code

mutual

/-- The local that code yields is visible after it, or was declared in it and is gone. -/
theorem denotes?_resolve? (c : Code) {f f' : Frame} {r : Resolved} {x : Local}
    (h : c.resolve? f = some (f', r)) (hx : r.denotes? = some (.bound x)) :
    x ∈ f'.locals ∨ f'.next ≤ x.slot ∧ f.declared ≤ x.declaration := by
  match c with
  | constant v l =>
    cases h
    cases hx
  | read n l =>
    cases h
    exact .inl (Frame.mem_locals_of_denote (Option.some.inj hx))
  | assign t v =>
    obtain ⟨f₁, t', v', -, -, rfl⟩ := resolve?_assign.1 h
    cases hx
  | declare n l =>
    obtain ⟨hd, rfl⟩ := resolve?_declare.1 h
    cases hx
    left
    rw [Frame.locals_declare? hd]
    exact List.mem_cons_self
  | define n l v =>
    obtain ⟨f₁, v', -, -, rfl⟩ := resolve?_define.1 h
    cases hx
  | scope body l =>
    obtain ⟨inner, rs, hb, rfl, rfl⟩ := resolve?_scope.1 h
    have hfollows := resolveAll?_follows body hb
    rcases denotesLast?_resolveAll? body hb hx with hmem | ⟨hslot, hdecl⟩
    · exact hfollows.added x hmem
    · exact .inr ⟨le_trans hfollows.next hslot, hdecl⟩
  | function ps body l =>
    obtain ⟨start, inner, rs, -, -, -, rfl⟩ := resolve?_function.1 h
    cases hx

theorem denotesLast?_resolveAll? (cs : List Code) {f f' : Frame} {rs : List Resolved} {x : Local}
    (h : resolveAll? f cs = some (f', rs)) (hx : denotesLast? rs = some (.bound x)) :
    x ∈ f'.locals ∨ f'.next ≤ x.slot ∧ f.declared ≤ x.declaration := by
  match cs with
  | [] =>
    cases h
    cases hx
  | [c] =>
    obtain ⟨f₁, r, rs', hc, hcs, rfl⟩ := resolveAll?_cons.1 h
    cases hcs
    exact denotes?_resolve? c hc hx
  | c :: c' :: cs =>
    obtain ⟨f₁, r, rs', hc, hcs, rfl⟩ := resolveAll?_cons.1 h
    have hlast : denotesLast? rs' = some (.bound x) := by
      obtain ⟨_, _, _, _, _, rfl⟩ := resolveAll?_cons.1 hcs
      exact hx
    rcases denotesLast?_resolveAll? (c' :: cs) hcs hlast with hmem | ⟨hslot, hdecl⟩
    · exact .inl hmem
    · exact .inr ⟨hslot, le_trans (resolve?_follows c hc).declared hdecl⟩

end

/-- The target of a tidy assignment can be told apart from all other visible locals, even if the
block that declares it is closed and its slot is in use again while the value is found. -/
lemma distinguished_target {t v : Code} {f f₁ f₂ : Frame} {t' v' : Resolved} {x : Variable}
    (hf : f.Proper) (ht : t.resolve? f = some (f₁, t')) (hv : v.resolve? f₁ = some (f₂, v'))
    (htd : t.declares = []) (hvd : v.declares = []) (hx : t'.denotes? = some x) :
    x.Distinguished f₂ := by
  cases x with
  | free n => trivial
  | bound x =>
    obtain ⟨hblocks₁, hnext₁⟩ := resolve?_of_declares_nil t ht htd
    obtain ⟨hblocks₂, -⟩ := resolve?_of_declares_nil v hv hvd
    have hlocals₁ : f₁.locals = f.locals := by rw [Frame.locals, hblocks₁, Frame.locals]
    have hlocals₂ : f₂.locals = f.locals := by rw [Frame.locals, hblocks₂, hblocks₁, Frame.locals]
    intro y hy
    rw [hlocals₂] at hy
    rcases denotes?_resolve? t ht hx with hmem | ⟨hslot, hdecl⟩
    · rw [hlocals₁] at hmem
      exact hf.slot_eq_iff hy hmem
    · have hslot' := hf.slot_lt hy
      have hdecl' := hf.declared y hy
      exact iff_of_false (by omega) (by omega)

mutual

/-- Executing code by variables is executing it with tracked values and seeing undefined in place of
what is stale. -/
theorem agree_exec (c : Code) {f f' : Frame} {r : Resolved} {t : Store Tracked} {s : Store Value}
    (hc : c.Tidy) (h : c.resolve? f = some (f', r)) (hf : f.Proper) (hts : Agree f t s) :
    Agree f' (r.exec tracked t).1 (r.exec byVariable s).1 ∧
      (r.exec tracked t).2.seen = (r.exec byVariable s).2 := by
  match c with
  | constant v l =>
    cases h
    exact ⟨hts, rfl⟩
  | read n l =>
    cases h
    exact ⟨hts, hts.read n⟩
  | assign target value =>
    obtain ⟨f₁, t', v', htarget, hvalue, rfl⟩ := resolve?_assign.1 h
    obtain ⟨htd, hvd, htt, htv⟩ := hc
    obtain ⟨hts₁, -⟩ := agree_exec target htt htarget hf hts
    obtain ⟨hts₂, ha⟩ :=
      agree_exec value htv hvalue (resolve?_proper target htarget hf) hts₁
    simp only [exec, ← ha]
    cases hx : t'.denotes? with
    | none => exact ⟨hts₂, rfl⟩
    | some x =>
      have hdist := distinguished_target hf htarget hvalue htd hvd hx
      exact ⟨hts₂.write hdist _, seen_store _ _ _ _ _⟩
  | declare n l =>
    obtain ⟨hd, rfl⟩ := resolve?_declare.1 h
    have hts' := hts.declare? hf hd ⟨(t.locals f.fresh.slot).value, true⟩
    exact ⟨hts', hts'.locals f.fresh (by simp [Frame.locals_declare? hd])⟩
  | define n l v =>
    obtain ⟨f₁, v', hv, hd, rfl⟩ := resolve?_define.1 h
    obtain ⟨hts₁, ha⟩ := agree_exec v hc.2 hv hf hts
    simp only [exec, ← ha]
    exact ⟨hts₁.declare? (resolve?_proper v hv hf) hd _, seen_store _ _ _ _ _⟩
  | scope body l =>
    obtain ⟨inner, rs, hb, rfl, rfl⟩ := resolve?_scope.1 h
    obtain ⟨hinner, ha⟩ := agree_execAll body hc hb hf.enter hts.enter
    exact ⟨hinner.leave (resolveAll?_follows body hb), ha⟩
  | function ps body l =>
    obtain ⟨start, inner, rs, -, -, rfl, rfl⟩ := resolve?_function.1 h
    exact ⟨hts, rfl⟩

theorem agree_execAll (cs : List Code) {f f' : Frame} {rs : List Resolved} {t : Store Tracked}
    {s : Store Value} (hcs : TidyAll cs) (h : resolveAll? f cs = some (f', rs)) (hf : f.Proper)
    (hts : Agree f t s) :
    Agree f' (execAll tracked rs t).1 (execAll byVariable rs s).1 ∧
      (execAll tracked rs t).2.seen = (execAll byVariable rs s).2 := by
  match cs with
  | [] =>
    cases h
    exact ⟨hts, rfl⟩
  | [c] =>
    obtain ⟨f₁, r, rs', hc, hrest, rfl⟩ := resolveAll?_cons.1 h
    cases hrest
    exact agree_exec c hcs.1 hc hf hts
  | c :: c' :: cs =>
    obtain ⟨f₁, r, rs', hc, hrest, rfl⟩ := resolveAll?_cons.1 h
    obtain ⟨hts₁, -⟩ := agree_exec c hcs.1 hc hf hts
    have hall := agree_execAll (c' :: cs) hcs.2 hrest (resolve?_proper c hc hf) hts₁
    obtain ⟨_, _, _, _, _, rfl⟩ := resolveAll?_cons.1 hrest
    exact hall

end

end Code

/-! ### Observing reuse -/

/-- The store in which a function starts: its arguments are in the first places, and the others are
undefined. -/
def entry (d : Discipline V) (arity : Nat) (args : Nat → Value) (globals : String → Value) :
    Store V :=
  ⟨fun i => d.value (if i < arity then args i else .undefined), fun n => d.value (globals n)⟩

/-- Whether two executions end with the same globals and the same result. -/
def SameOutcome (r r' : Store Value × Value) : Prop := r.1.globals = r'.1.globals ∧ r.2 = r'.2

/-- Whether nothing stale but undefined is in the globals or the result of an execution. -/
def Unexposed (r : Store Tracked × Tracked) : Prop :=
  (∀ n, (r.1.globals n).stale = true → (r.1.globals n).value = .undefined) ∧
    (r.2.stale = true → r.2.value = .undefined)

lemma Tracked.value_eq_seen {a : Tracked} :
    a.value = a.seen ↔ (a.stale = true → a.value = .undefined) := by
  rw [seen]
  split
  · simp [*]
  · simp [*]

/-- Executing a procedure by slots and by variables ends the same exactly if nothing stale is
exposed. -/
theorem sameOutcome_iff_unexposed {p : Procedure} (hp : p.source.procedure? = some p)
    (htidy : p.source.Tidy) (args : Nat → Value) (globals : String → Value) :
    SameOutcome (execAll bySlot p.body (entry bySlot p.arity args globals))
        (execAll byVariable p.body (entry byVariable p.arity args globals)) ↔
      Unexposed (execAll tracked p.body (entry tracked p.arity args globals)) := by
  obtain ⟨ps, body, l, start, inner, rs, hsource, hs, hb, hp'⟩ := Code.procedure?_eq_some hp
  rw [hsource] at htidy
  have hproper := (Frame.proper_initial.declareAll? hs).1
  have haligned := Frame.slot_eq_declaration hs rfl (by simp [Frame.locals, Frame.initial])
  -- Parameters have the same place in both stores, so both start in agreement.
  have hentry : Agree start (entry tracked p.arity args globals)
      (entry byVariable p.arity args globals) := by
    refine ⟨?_, fun n => rfl⟩
    intro x hx
    rw [haligned x hx]
    rfl
  obtain ⟨hagree, hresult⟩ := Code.agree_execAll body htidy hb hproper hentry
  have hslots := execAll_bySlot rs (entry tracked p.arity args globals)
  have hbody : p.body = rs := by rw [hp']
  have hforget : (entry tracked p.arity args globals).forget = entry bySlot p.arity args globals :=
    rfl
  rw [hbody, ← hforget, hslots, SameOutcome, Unexposed, ← hresult, ← Tracked.value_eq_seen]
  refine and_congr ?_ Iff.rfl
  rw [funext_iff]
  apply forall_congr'
  intro n
  rw [← Tracked.value_eq_seen, hagree.globals n]
  rfl

/-- The reuse of slots by the functions of the graph of a text is unobservable exactly if nothing
stale is exposed. -/
theorem slot_reuse_unobservable_iff {lexicon : Lexicon} {source : List UInt8} {g : Graph}
    (h : parse lexicon source = .ok g) :
    ∃ (b : Phrase.Body) (ps : List Procedure),
      (Lexer.ofBytes lexicon source).Derives b ∧
      (ps.map Procedure.source).Sublist (Code.unit b.code).literals ∧
      (ps.map Procedure.source).getLast? = some (Code.unit b.code) ∧
      (∀ p ∈ ps, p.source.procedure? = some p) ∧
      List.Forall₂ (fun f p => ∀ args globals,
        (SameOutcome (f.root.eval (denote ps) (entry bySlot f.arity args globals))
            (execAll byVariable p.body (entry byVariable p.arity args globals)) ↔
          Unexposed (execAll tracked p.body (entry tracked p.arity args globals))))
        g.functions ps := by
  obtain ⟨b, r, fs, pre, t, hb, hr, hl, rfl⟩ := parse_eq_ok_iff_lower.1 h
  obtain ⟨ps, hsources, hlast, hprocedures, himp⟩ := exists_procedures_addEntry hr hl
  have hgood : ∀ p ∈ ps, p.source.procedure? = some p ∧ p.source.Tidy := by
    intro p hp
    have hunit : (Code.unit b.code).Tidy := b.tidy_code
    refine ⟨hprocedures p hp, ?_⟩
    exact Code.tidy_of_mem_literals _ hunit _ (hsources.subset (List.mem_map_of_mem hp))
  refine ⟨b, ps, hb, hsources, hlast, hprocedures, ?_⟩
  refine ((List.forall₂_and_left _ _).2 ⟨hgood, himp.flip⟩).flip.imp ?_
  rintro f p ⟨⟨hp, htidy⟩, hfp⟩ args globals
  rw [hfp.root, hfp.arity]
  exact sameOutcome_iff_unexposed hp htidy args globals

/-! ### Reuse that is observed -/

/-- A text whose second variable takes the slot of its first and has no value of its own. -/
def leftover : List UInt8 := Utf8.encode "do \x7b let y = 5 \x7d\nlet x\nx"

/-- The lexemes of the text by number. -/
def leftoverLexeme (i : Nat) : Lexeme := (Lexer.ofBytes .standard leftover).lexeme i

lemma tokens_leftover :
    (Lexer.ofBytes .standard leftover).stream.lexemes.map Lexeme.token =
      [.kwDo, .braceLeft, .kwLet, .ident, .assign, .number, .braceRight, .breakLine, .kwLet, .ident,
        .breakLine, .ident] := by
  decide +kernel

lemma token_leftoverLexeme (i : Nat) :
    (leftoverLexeme i).token =
      [.kwDo, .braceLeft, .kwLet, .ident, .assign, .number, .braceRight, .breakLine, .kwLet, .ident,
        .breakLine, .ident].getD i (Lexer.ofBytes .standard leftover).current.token :=
  Lexer.token_lexeme tokens_leftover i

/-- The derivation of the text. -/
def leftoverBody : Phrase.Body :=
  .filled []
    (.expr (.atom (.scope ⟨leftoverLexeme 0, token_leftoverLexeme 0⟩
      ⟨leftoverLexeme 1, token_leftoverLexeme 1⟩
      (.filled []
        (.define ⟨leftoverLexeme 2, token_leftoverLexeme 2⟩
          ⟨leftoverLexeme 3, token_leftoverLexeme 3⟩ ⟨leftoverLexeme 4, by decide +kernel⟩
          (.atom (.constant ⟨leftoverLexeme 5, .inl (token_leftoverLexeme 5)⟩)))
        (.stop []))
      ⟨leftoverLexeme 6, token_leftoverLexeme 6⟩)))
    (.next ⟨leftoverLexeme 7, token_leftoverLexeme 7⟩ []
      (.declare ⟨leftoverLexeme 8, token_leftoverLexeme 8⟩
        ⟨leftoverLexeme 9, token_leftoverLexeme 9⟩)
      (.next ⟨leftoverLexeme 10, token_leftoverLexeme 10⟩ []
        (.expr (.atom (.name ⟨leftoverLexeme 11, token_leftoverLexeme 11⟩))) (.stop [])))

lemma lexemes_leftoverBody :
    leftoverBody.lexemes = (Lexer.ofBytes .standard leftover).stream.lexemes := by
  have hbody : leftoverBody.lexemes = (List.range 12).map leftoverLexeme := rfl
  exact hbody.trans (Lexer.map_lexeme_range tokens_leftover)

/-- Whether a value is stale and not undefined. -/
def Tracked.isExposed : Tracked → Bool
  | ⟨.literal .undefined, _⟩ => false
  | ⟨_, stale⟩ => stale

/-- Whether the result of a function is exposed if it starts with nothing defined. -/
def exposes (c : Code) : Bool :=
  match c.procedure? with
  | some p =>
    (execAll tracked p.body
      (entry tracked p.arity (fun _ => .undefined) fun _ => .undefined)).2.isExposed
  | none => false

lemma not_unexposed_of_exposes {p : Procedure} (hp : p.source.procedure? = some p)
    (h : exposes p.source = true) :
    ¬Unexposed (execAll tracked p.body
      (entry tracked p.arity (fun _ => .undefined) fun _ => .undefined)) := by
  rintro ⟨-, hresult⟩
  rw [exposes, hp] at h
  dsimp only at h
  rw [Tracked.isExposed.eq_def] at h
  split at h
  · cases h
  · next a hne heq =>
    rw [heq] at hresult
    exact hne (hresult h)

/-- The result of this text is the value of its first variable, which is gone, where the second one
has none. -/
theorem slot_reuse_observable :
    ∃ (g : Graph) (b : Phrase.Body) (ps : List Procedure) (f : Function) (p : Procedure),
      parse .standard leftover = .ok g ∧ (Lexer.ofBytes .standard leftover).Derives b ∧
      g.functions.getLast? = some f ∧ ps.getLast? = some p ∧ p.source = Code.unit b.code ∧
      p.source.procedure? = some p ∧
      ¬SameOutcome
        (f.root.eval (denote ps) (entry bySlot f.arity (fun _ => .undefined) fun _ => .undefined))
        (execAll byVariable p.body
          (entry byVariable p.arity (fun _ => .undefined) fun _ => .undefined)) := by
  have hsome : (parse .standard leftover).toOption.isSome = true := by decide +kernel
  obtain ⟨g, hg⟩ := Option.isSome_iff_exists.1 hsome
  rw [toOption_eq_some] at hg
  obtain ⟨b, ps, hb, -, hlast, hprocedures, hiff⟩ := slot_reuse_unobservable_iff hg
  have hbody : b = leftoverBody := hb.unique lexemes_leftoverBody
  rw [List.getLast?_map, Option.map_eq_some_iff] at hlast
  obtain ⟨p, hp, hsource⟩ := hlast
  obtain ⟨qs, rfl⟩ := List.getLast?_eq_some_iff.1 hp
  have hp' := hprocedures p (List.mem_append_right _ List.mem_cons_self)
  have hreverse := List.rel_reverse hiff
  rw [List.reverse_append] at hreverse
  cases hfs : g.functions.reverse with
  | nil =>
    rw [hfs] at hreverse
    cases hreverse
  | cons f fs =>
    rw [hfs] at hreverse
    cases hreverse with
    | cons hf _ =>
      refine ⟨g, b, qs ++ [p], f, p, hg, hb, ?_, hp, hsource, hp', ?_⟩
      · rw [List.getLast?_eq_head?_reverse, hfs]
        rfl
      · rw [hf]
        apply not_unexposed_of_exposes hp'
        rw [hsource, hbody]
        decide +kernel

end ScriptGraph
