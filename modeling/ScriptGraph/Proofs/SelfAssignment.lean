import ScriptGraph.Proofs.Lowering.Meaning
import ScriptGraph.Proofs.SelfAssignment.Referents

/-!
# Assigning a variable to itself

An assignment whose two sides denote one variable is dropped, and its value is undefined. The
builder finds this out by the slots, after the blocks of both sides are closed, so it also drops an
assignment between two variables of such blocks that took the same slot: those with as many
variables in scope before them. It drops no other assignment.
-/

namespace ScriptGraph

/-! ### Assignments -/

/-- An assignment is dropped exactly if both of its sides read one variable. -/
lemma Builder.undefined_iff {x : Variable} {l : Location} {v u : Term} {y? : Option Variable}
    (hv : Reads v y?) (hu : (Builder.assign (x.get l) v).toOption = some u) :
    (∃ l', u = .undefined l') ↔ ∃ y, y? = some y ∧ x.isSame y = true := by
  have hsame := hv.isSameVariable x l
  rw [← Option.any_eq_true]
  rcases Builder.assign_eq_some.1 hu with ⟨htrue, rfl⟩ | ⟨hfalse, hpromote⟩
  · rw [← hsame, htrue]
    exact ⟨fun _ => rfl, fun _ => ⟨_, rfl⟩⟩
  · rw [← hsame, hfalse]
    refine ⟨?_, nofun⟩
    rintro ⟨l', rfl⟩
    cases x <;> cases hpromote

/-- Whether some code at a place assigns to a variable what a variable yields. A variable that is
declared with a value is not in scope in the value. -/
inductive Place.Assigns : Place → Code → Referent → Referent → Prop
  | assign {place : Place} {t v : Code} {x y : Referent} (hx : Denotes (.target v :: place) t x)
      (hy : Denotes (.value t :: place) v y) : Assigns place (.assign t v) x y
  | define {place : Place} {n : String} {l : Location} {v : Code} {y : Referent}
      (hy : Denotes (.definition n l :: place) v y) :
      Assigns place (.define n l v)
        (.bound ⟨n, l, place.issued ++ v.instructions⟩ place.inScope.length) y

/-- Whether some code is an assignment or a declaration with a value. -/
def Code.IsAssignment : Code → Prop
  | assign .. | define .. => True
  | _ => False

/-- Whether the builder makes a term of some code when it comes to a place. -/
def Place.Yields (place : Place) (c : Code) (u : Term) : Prop :=
  ∃ m m', Machine.run? {} place.issued = some m ∧ m.run? c.instructions = some m' ∧
    m'.operands = u :: m.operands

namespace Machine.At

variable {m m' : Machine} {f : Frame} {place : Place}

/-- The builder yields the term of the lowered code. -/
lemma yields (h : m.At place.issued f place.visible) {c : Code}
    (hrun : m.run? c.instructions = some m') :
    ∃ f' r fs pre u, c.resolve? f = some (f', r) ∧
      r.lower? m.builder.graph.functions = some (fs, pre, u) ∧ place.Yields c u := by
  have hrel := rel_code c h.frame
  rw [hrun] at hrel
  generalize hx : c.build? f m.builder.graph.functions = x at hrel
  cases hrel with
  | some hbuilds =>
    obtain ⟨⟨f', r⟩, hr, hmap⟩ := Option.bind_eq_some_iff.1 hx
    obtain ⟨⟨fs, pre, u⟩, hl, rfl⟩ := Option.map_eq_some_iff.1 hmap
    exact ⟨f', r, fs, pre, u, hr, hl, m, m', h.run, hrun, hbuilds.1⟩

/-- Two sides read one variable exactly if they denote variables that are one or confused. -/
lemma exists_isSame_iff (h : m.At place.issued f place.visible) {inner : Place} {c : Code}
    {x : Referent} {v : Variable} {w? : Option Variable} (hx : x.Meets v) (hxr : x.Ranked place)
    (hc : inner.Meets c w?) (hinner : inner.visible = place.visible) :
    (∃ w, w? = some w ∧ v.isSame w = true) ↔
      ∃ y, inner.Denotes c y ∧ (x.IsSame y ∨ x.Confused place y) := by
  have hranked {y : Referent} (hy : inner.Denotes c y) : y.Ranked place := by
    have := hy.ranked
    cases y with
    | free n => trivial
    | bound d rank => simpa [Referent.Ranked, Place.inScope, hinner] using this
  constructor
  · rintro ⟨w, hw, hsame⟩
    obtain ⟨y, hy, hyw⟩ := hc.back w hw
    exact ⟨y, hy, (h.isSame_iff hx hyw hxr (hranked hy)).1 hsame⟩
  · rintro ⟨y, hy, hxy⟩
    obtain ⟨w, hw, hyw⟩ := hc.forth y hy
    exact ⟨w, hw, (h.isSame_iff hx hyw hxr (hranked hy)).2 hxy⟩

/-- Both sides of an assignment become the variables that they denote. -/
lemma meets_sides (h : m.At place.issued f place.visible) {t v : Code}
    (hc : (Code.assign t v).Tidy) (hrun : m.run? (Code.assign t v).instructions = some m')
    {f₁ f' : Frame} {t' v' : Resolved} (ht : t.resolve? f = some (f₁, t'))
    (hv : v.resolve? f₁ = some (f', v')) :
    Place.Meets (.target v :: place) t t'.denotes? ∧
      Place.Meets (.value t :: place) v v'.denotes? := by
  obtain ⟨htdeclares, -, httidy, hvtidy⟩ := hc
  rw [Code.instructions, List.append_assoc, run?_append_eq_some] at hrun
  obtain ⟨m₁, hm₁, hrest⟩ := hrun
  obtain ⟨m₂, hm₂, -⟩ := run?_append_eq_some.1 hrest
  have hissued : Place.issued (.target v :: place) = place.issued := by
    simp [Place.issued, Surrounding.opening]
  have htarget : m.At (Place.issued (.target v :: place)) f place.visible := hissued ▸ h
  obtain ⟨f₁', t'', ht', hvalue⟩ := h.code htdeclares hm₁
  cases ht.symm.trans ht'
  exact ⟨meets t htarget httidy hm₁ ht, meets v hvalue hvtidy hm₂ hv⟩

lemma undefined_iff_assign (h : m.At place.issued f place.visible) {t v : Code}
    (hc : (Code.assign t v).Tidy) (hrun : m.run? (Code.assign t v).instructions = some m') :
    ∃ u, place.Yields (.assign t v) u ∧ ((∃ l, u = .undefined l) ↔
      ∃ x y, place.Assigns (.assign t v) x y ∧ (x.IsSame y ∨ x.Confused place y)) := by
  obtain ⟨f', r, fs, pre, u, hr, hl, hyields⟩ := h.yields hrun
  refine ⟨u, hyields, ?_⟩
  obtain ⟨f₁, t', v', ht, hv, rfl⟩ := Code.resolve?_assign.1 hr
  obtain ⟨fs₁, pre₁, a, pre₂, b, hlt, hlv, hu, -⟩ := Resolved.lower?_assign.1 hl
  obtain ⟨htmeets, hvmeets⟩ := h.meets_sides hc hrun ht hv
  have hreads := Resolved.reads_lower? t' hlt
  cases hdenotes : t'.denotes? with
  | none =>
    rw [hdenotes] at hreads
    exact absurd (Builder.exists_assign.1 ⟨_, hu⟩) hreads
  | some z =>
    rw [hdenotes] at hreads
    obtain ⟨l, rfl⟩ := hreads
    rw [Builder.undefined_iff (Resolved.reads_lower? v' hlv) hu]
    constructor
    · intro hsame
      obtain ⟨x, hx, hxz⟩ := htmeets.back z hdenotes
      obtain ⟨y, hy, hxy⟩ := (h.exists_isSame_iff hxz hx.ranked hvmeets rfl).1 hsame
      exact ⟨x, y, .assign hx hy, hxy⟩
    · rintro ⟨x, y, hassigns, hxy⟩
      cases hassigns with
      | assign hx hy =>
        obtain ⟨z', hz', hxz⟩ := htmeets.forth x hx
        cases hdenotes.symm.trans hz'
        exact (h.exists_isSame_iff hxz hx.ranked hvmeets rfl).2 ⟨y, hy, hxy⟩

/-- The name of a declaration with a value becomes the variable that it declares, and the value the
one that it denotes. -/
lemma meets_definition (h : m.At place.issued f place.visible) {n : String} {l : Location}
    {v : Code} (hc : (Code.define n l v).Tidy)
    (hrun : m.run? (Code.define n l v).instructions = some m') {f₁ f' : Frame} {v' : Resolved}
    (hv : v.resolve? f = some (f₁, v')) (hd : f₁.declare? n = some f') :
    (Referent.bound ⟨n, l, place.issued ++ v.instructions⟩ place.inScope.length).Meets
        (.bound f₁.fresh) ∧
      Place.Meets (.definition n l :: place) v v'.denotes? := by
  rw [Code.instructions, run?_append_eq_some] at hrun
  obtain ⟨m₁, hm₁, -⟩ := hrun
  have hissued : Place.issued (.definition n l :: place) = place.issued := by
    simp [Place.issued, Surrounding.opening]
  have hvalue : m.At (Place.issued (.definition n l :: place)) f place.visible := hissued ▸ h
  obtain ⟨f₁', v'', hv', hafter⟩ := h.code hc.1 hm₁
  cases hv.symm.trans hv'
  -- The value declares nothing, so the variable takes the slot after those in scope.
  have hnext : f₁.next = place.inScope.length :=
    (Code.resolve?_of_declares_nil v hv hc.1).2.trans h.length_inScope.symm
  rw [← hnext]
  exact ⟨⟨hafter.takes hd l, rfl⟩, meets v hvalue hc.2 hm₁ hv⟩

lemma undefined_iff_define (h : m.At place.issued f place.visible) {n : String} {l : Location}
    {v : Code} (hc : (Code.define n l v).Tidy)
    (hrun : m.run? (Code.define n l v).instructions = some m') :
    ∃ u, place.Yields (.define n l v) u ∧ ((∃ l', u = .undefined l') ↔
      ∃ x y, place.Assigns (.define n l v) x y ∧ (x.IsSame y ∨ x.Confused place y)) := by
  obtain ⟨f', r, fs, pre, u, hr, hl, hyields⟩ := h.yields hrun
  refine ⟨u, hyields, ?_⟩
  obtain ⟨f₁, v', hv, hd, rfl⟩ := Code.resolve?_define.1 hr
  obtain ⟨b, hlv, hu⟩ := Resolved.lower?_define.1 hl
  obtain ⟨hx, hvmeets⟩ := h.meets_definition hc hrun hv hd
  have hu' : (Builder.assign ((Variable.bound f₁.fresh).get l) b).toOption = some u := hu
  rw [Builder.undefined_iff (Resolved.reads_lower? v' hlv) hu',
    h.exists_isSame_iff hx (.inr (Nat.le_refl _)) hvmeets rfl]
  constructor
  · rintro ⟨y, hy, hxy⟩
    exact ⟨_, y, .define hy, hxy⟩
  · rintro ⟨x, y, hassigns, hxy⟩
    cases hassigns with
    | define hy => exact ⟨y, hy, hxy⟩

/-- An assignment to a name is dropped exactly if the name and the value denote one variable: what
a name denotes is in scope, so it is not confused with another variable. -/
theorem undefined_iff_assign_read (h : m.At place.issued f place.visible) {n : String}
    {l : Location} {v : Code} (hc : (Code.assign (.read n l) v).Tidy)
    (hrun : m.run? (Code.assign (.read n l) v).instructions = some m') :
    ∃ u, place.Yields (.assign (.read n l) v) u ∧ ((∃ l', u = .undefined l') ↔
      ∃ x y, place.Assigns (.assign (.read n l) v) x y ∧ x.IsSame y) := by
  obtain ⟨u, hyields, hiff⟩ := h.undefined_iff_assign hc hrun
  refine ⟨u, hyields, hiff.trans ?_⟩
  constructor
  · rintro ⟨x, y, hassigns, hsame | hconfused⟩
    · exact ⟨x, y, hassigns, hsame⟩
    · cases hassigns with
      | assign hx hy => exact absurd hconfused (hx.not_confused rfl)
  · rintro ⟨x, y, hassigns, hsame⟩
    exact ⟨x, y, hassigns, .inl hsame⟩

end Machine.At

/-- Which assignments of a text are dropped: wherever an assignment or a declaration with a value
stands in a text that has a graph, the builder yields undefined for it exactly if both of its sides
denote one variable, or two confused ones. -/
theorem self_assignment_eliminated_iff {lexicon : Lexicon} {source : List UInt8} {g : Graph}
    (h : parse lexicon source = .ok g) :
    ∃ b m, (Lexer.ofBytes lexicon source).Derives b ∧
      Machine.run? {} (Code.unit b.code).instructions = some m ∧ g = m.builder.graph ∧
      ∀ (place : Place) (c : Code), place.fill c = Code.unit b.code → c.IsAssignment →
        ∃ u, place.Yields c u ∧ ((∃ l, u = .undefined l) ↔
          ∃ x y, place.Assigns c x y ∧ (x.IsSame y ∨ x.Confused place y)) := by
  obtain ⟨b, m, hb, hrun, rfl⟩ := parse_eq_ok.1 h
  refine ⟨b, m, hb, hrun, rfl, ?_⟩
  intro place c hplace hassignment
  have hunit := b.tidy_code
  obtain ⟨htidy, m₁, m₂, -, hm₂, hat⟩ := place.exists_at hplace hunit hrun
  -- A unit is no assignment, so there is something around it.
  have hne : place ≠ [] := by
    rintro rfl
    cases hplace
    exact hassignment
  obtain ⟨f, hf⟩ := hat hne
  cases c with
  | assign t v => exact hf.undefined_iff_assign htidy hm₂
  | define n l v => exact hf.undefined_iff_define htidy hm₂
  | constant | read | declare | scope | function => exact hassignment.elim

/-! ### An assignment that is lost -/

/-- A text that declares a variable with what a variable of a block holds. -/
def overlap : List UInt8 := Utf8.encode "let x = do \x7b let y = 5; y \x7d"

/-- The lexemes of the text by number. -/
def overlapLexeme (i : Nat) : Lexeme := (Lexer.ofBytes .standard overlap).lexeme i

lemma tokens_overlap :
    (Lexer.ofBytes .standard overlap).stream.lexemes.map Lexeme.token =
      [.kwLet, .ident, .assign, .kwDo, .braceLeft, .kwLet, .ident, .assign, .number, .breakLine,
        .ident, .braceRight] := by
  decide +kernel

lemma token_overlapLexeme (i : Nat) :
    (overlapLexeme i).token =
      [.kwLet, .ident, .assign, .kwDo, .braceLeft, .kwLet, .ident, .assign, .number, .breakLine,
        .ident, .braceRight].getD i (Lexer.ofBytes .standard overlap).current.token :=
  Lexer.token_lexeme tokens_overlap i

/-- The derivation of the text. -/
def overlapBody : Phrase.Body :=
  .filled []
    (.define ⟨overlapLexeme 0, token_overlapLexeme 0⟩ ⟨overlapLexeme 1, token_overlapLexeme 1⟩
      ⟨overlapLexeme 2, by decide +kernel⟩
      (.atom (.scope ⟨overlapLexeme 3, token_overlapLexeme 3⟩
        ⟨overlapLexeme 4, token_overlapLexeme 4⟩
        (.filled []
          (.define ⟨overlapLexeme 5, token_overlapLexeme 5⟩
            ⟨overlapLexeme 6, token_overlapLexeme 6⟩ ⟨overlapLexeme 7, by decide +kernel⟩
            (.atom (.constant ⟨overlapLexeme 8, .inl (token_overlapLexeme 8)⟩)))
          (.next ⟨overlapLexeme 9, token_overlapLexeme 9⟩ []
            (.expr (.atom (.name ⟨overlapLexeme 10, token_overlapLexeme 10⟩))) (.stop [])))
        ⟨overlapLexeme 11, token_overlapLexeme 11⟩)))
    (.stop [])

lemma lexemes_overlapBody :
    overlapBody.lexemes = (Lexer.ofBytes .standard overlap).stream.lexemes := by
  have hbody : overlapBody.lexemes = (List.range 12).map overlapLexeme := rfl
  exact hbody.trans (Lexer.map_lexeme_range tokens_overlap)

/-- The variable of this text is declared with the value of another one, and yet the builder yields
undefined and stores nothing. -/
theorem self_assignment_eliminated_overlap :
    ∃ (g : Graph) (b : Phrase.Body) (place : Place) (n : String) (l : Location) (v : Code)
      (x y : Referent),
      parse .standard overlap = .ok g ∧ (Lexer.ofBytes .standard overlap).Derives b ∧
      place.fill (.define n l v) = Code.unit b.code ∧ place.Assigns (.define n l v) x y ∧
      ¬x.IsSame y ∧ ∃ l', place.Yields (.define n l v) (.undefined l') := by
  have hsome : (parse .standard overlap).toOption.isSome = true := by decide +kernel
  obtain ⟨g, hg⟩ := Option.isSome_iff_exists.1 hsome
  rw [toOption_eq_some] at hg
  obtain ⟨b, m, hb, -, -, hplaces⟩ := self_assignment_eliminated_iff hg
  obtain rfl := hb.unique lexemes_overlapBody
  let place : Place := [.function [] [] [] .beginning]
  let first : Code := .define (overlapLexeme 6).name (overlapLexeme 6).location
    (.constant (overlapLexeme 8).value (overlapLexeme 8).location)
  let last : Code := .read (overlapLexeme 10).name (overlapLexeme 10).location
  let value : Code := .scope ([first] ++ [last]) (overlapLexeme 3).location
  let y : Declaration := ⟨(overlapLexeme 6).name, (overlapLexeme 6).location,
    [.pushFunction, .pushBlock true, .constant (overlapLexeme 8).value (overlapLexeme 8).location]⟩
  let x : Declaration := ⟨(overlapLexeme 1).name, (overlapLexeme 1).location,
    place.issued ++ value.instructions⟩
  have hfill : place.fill (.define x.name x.location value) = Code.unit overlapBody.code := rfl
  have hname : y.name = (overlapLexeme 10).name := by decide +kernel
  have hdifferent : x ≠ y := by
    intro heq
    exact absurd (congrArg Declaration.name heq) (by decide +kernel)
  have hassigns : place.Assigns (.define x.name x.location value) (.bound x 0) (.bound y 0) :=
    .define (.last (.bound (.here List.mem_cons_self hname) rfl))
  obtain ⟨u, hyields, hiff⟩ := hplaces place _ hfill trivial
  have hconfused : (Referent.bound x 0).Confused place (.bound y 0) :=
    ⟨hdifferent, rfl, List.not_mem_nil, List.not_mem_nil⟩
  obtain ⟨l', rfl⟩ := hiff.2 ⟨_, _, hassigns, .inr hconfused⟩
  exact ⟨g, overlapBody, place, x.name, x.location, value, _, _, hg, hb, hfill, hassigns,
    hdifferent, l', hyields⟩

end ScriptGraph
