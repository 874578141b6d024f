import ScriptGraph.Proofs.Scopes

/-!
# Statements of open blocks

The statements of a block and of the inheriting blocks in it belong together until the block closes,
but each open block holds some of them back: an inheriting block only its latest one, and what it
holds counts for the blocks around it as well. Read from the outside in, the open blocks that hand
their statements on hold the statements in the order in which they came. So a closed block yields
what was stated in it, and what an inheriting block yields is taken away from the blocks around it.
Which blocks are open, and which of them inherit, is read off the instructions alone.
-/

namespace ScriptGraph

namespace BlockScope

/-- Whether a statement counts for the open block with a number of blocks around it: all blocks in
it inherit. -/
def feeds (blocks : List BlockScope) (level : Nat) : Bool :=
  (blocks.take (blocks.length - (level + 1))).all inherits

/-- The statements that a block holds, in order. -/
def own (b : BlockScope) : List Term := b.statements.reverse ++ b.result.toList

end BlockScope

/-- Whether an instruction opens no block and closes none. -/
def Instruction.IsInner : Instruction → Prop
  | pushFunction | popFunction _ | pushBlock _ | popBlock _ => False
  | _ => True

/-- Whether each open block inherits after an instruction, the innermost first. -/
def Instruction.flags (i : Instruction) (before : List Bool) : List Bool :=
  match i with
  | pushFunction => false :: before
  | pushBlock inherits => inherits :: before
  | popFunction _ | popBlock _ => before.tail
  | _ => before

namespace Machine

/-- Whether each block inherits that instructions, the latest first, have opened and not closed
again, the innermost first. -/
def openings (is : List Instruction) : List Bool := is.foldr Instruction.flags []

/-- The statements of a block after an instruction that counts for it. The end of an inheriting
block in it takes the latest one away, which the closed block yields, unless that block has none and
yields nothing of its own. -/
def post (m : Machine) (innermost terms : List Term) : Instruction → List Term
  | .statement => terms ++ m.operands.head?.toList
  | .popBlock _ => if innermost.isEmpty then terms else terms.dropLast
  | _ => terms

/-- What was stated in an open block, which is given by the number of blocks around it, and in the
inheriting blocks in it, in order and without what these blocks yielded when they closed. -/
def stated : Past → Nat → List Term
  | [], _ => []
  | (m, i) :: past, level =>
    if m.builder.blockDepth ≤ level then []
    else if BlockScope.feeds m.builder.blocks.live level then
      m.post (stated past (m.builder.blockDepth - 1)) (stated past level) i
    else stated past level

end Machine

/-! ### Accounts -/

/-- Whether a block holds the last of what is stated in it, apart from what the blocks in it hold. A
block that does not inherit holds all of it. -/
structure BlockScope.Accounts (b : BlockScope) (all inner : List Term) : Prop where
  suffix : b.own ++ inner <:+ all
  owning : b.inherits = false → all = b.own ++ inner
  inheriting : b.inherits = true → b.statements = []
  fresh : b.result = none → b.statements = [] ∧ all = inner

/-- Whether open blocks hold what is stated in each of them. What the blocks inside hold comes
last. -/
def Accounted (L : Nat → List Term) : List Term → List BlockScope → Prop
  | _, [] => True
  | inner, b :: outer =>
    b.Accounts (L outer.length) inner ∧
      Accounted L (if b.inherits then b.own ++ inner else []) outer

/-- Whether what is stated in the open blocks changes where new statements count. -/
def Revised (g : List Term → List Term) (L L' : Nat → List Term) (bs : List BlockScope) : Prop :=
  ∀ level < bs.length, L' level = if BlockScope.feeds bs level then g (L level) else L level

namespace BlockScope

@[simp] lemma length_append (bs : List BlockScope) (t : Term) :
    (append bs t).length = bs.length := by
  have hlength := congrArg List.length (bare_append bs t)
  rwa [List.length_map, List.length_map] at hlength

lemma feeds_self (b : BlockScope) (outer : List BlockScope) :
    feeds (b :: outer) outer.length = true := by
  simp [feeds]

lemma feeds_cons (b : BlockScope) {outer : List BlockScope} {level : Nat}
    (h : level < outer.length) : feeds (b :: outer) level = (b.inherits && feeds outer level) := by
  have hlen : (b :: outer).length - (level + 1) = outer.length - (level + 1) + 1 := by
    rw [List.length_cons]
    omega
  rw [feeds, hlen, List.take_succ_cons, List.all_cons, feeds]

variable {b : BlockScope} {all inner : List Term} {t : Term}

/-- More is stated inside. -/
lemma Accounts.concat (h : b.Accounts all inner) : b.Accounts (all ++ [t]) (inner ++ [t]) where
  suffix := by
    obtain ⟨gone, rfl⟩ := h.suffix
    exact ⟨gone, by simp only [List.append_assoc]⟩
  owning hb := by rw [h.owning hb, List.append_assoc]
  inheriting := h.inheriting
  fresh hr := ⟨(h.fresh hr).1, congrArg (· ++ [t]) (h.fresh hr).2⟩

/-- What is stated inside is taken away. -/
lemma Accounts.dropLast (h : b.Accounts all (inner ++ [t])) : b.Accounts all.dropLast inner where
  suffix := by
    obtain ⟨gone, rfl⟩ := h.suffix
    exact ⟨gone, by simp only [← List.append_assoc, List.dropLast_concat]⟩
  owning hb := by rw [h.owning hb, ← List.append_assoc, List.dropLast_concat]
  inheriting := h.inheriting
  fresh hr := ⟨(h.fresh hr).1, by rw [(h.fresh hr).2, List.dropLast_concat]⟩

/-- An inheriting block holds the latest statement. -/
lemma Accounts.getLast?_eq (h : b.Accounts all []) (hb : b.inherits = true) :
    all.getLast? = b.result := by
  cases hr : b.result with
  | none => rw [(h.fresh hr).2, List.getLast?_nil]
  | some t =>
    obtain ⟨gone, hgone⟩ := h.suffix
    rw [← hgone, own, h.inheriting hb, hr]
    simp

/-- A block that does not inherit holds all its statements, and its value is theirs. -/
lemma Accounts.value_eq (h : b.Accounts all []) (hb : b.inherits = false) (l : Location) :
    b.value l = closeBody all l := by
  have hall : all = b.own := (h.owning hb).trans (List.append_nil _)
  have hself : b = { b with
      result := all.getLast?, statements := all.dropLast.reverse } := by
    obtain ⟨locals, statements, result, inherits, firstLocal⟩ := b
    cases result with
    | none =>
      obtain rfl : statements = [] := (h.fresh rfl).1
      rw [hall]
      rfl
    | some t =>
      rw [hall]
      simp [own]
  rw [hself]
  exact value_owning b all l hb

end BlockScope

variable {L L' : Nat → List Term} {g : List Term → List Term} {inner : List Term} {t : Term}
  {b : BlockScope} {bs outer : List BlockScope}

lemma Revised.head (h : Revised g L L' (b :: outer)) : L' outer.length = g (L outer.length) := by
  rw [h _ (Nat.lt_succ_self _), BlockScope.feeds_self, if_pos rfl]

lemma Revised.tail (h : Revised g L L' (b :: outer)) (hb : b.inherits = true) :
    Revised g L L' outer := by
  intro level hlevel
  rw [h level (Nat.lt_succ_of_lt hlevel), BlockScope.feeds_cons b hlevel, hb, Bool.true_and]

lemma Revised.eq_of_owning (h : Revised g L L' (b :: outer)) (hb : b.inherits = false) :
    ∀ level < outer.length, L' level = L level := by
  intro level hlevel
  rw [h level (Nat.lt_succ_of_lt hlevel), BlockScope.feeds_cons b hlevel, hb, Bool.false_and]
  rfl

namespace Accounted

lemma congr (h : Accounted L inner bs) (hL : ∀ level < bs.length, L' level = L level) :
    Accounted L' inner bs := by
  induction bs generalizing inner with
  | nil => trivial
  | cons b outer ih =>
    obtain ⟨hb, houter⟩ := h
    refine ⟨(hL _ (Nat.lt_succ_self _)).symm ▸ hb, ih houter ?_⟩
    intro level hlevel
    exact hL level (Nat.lt_succ_of_lt hlevel)

/-- What the blocks inside some blocks hold is the last that was stated where it counts. -/
lemma suffix (h : Accounted L inner bs) {level : Nat} (hlevel : level < bs.length)
    (hfeeds : BlockScope.feeds bs level = true) : inner <:+ L level := by
  induction bs generalizing inner with
  | nil => exact absurd hlevel (Nat.not_lt_zero _)
  | cons b outer ih =>
    obtain ⟨hb, houter⟩ := h
    have hinner : inner <:+ b.own ++ inner := List.suffix_append _ _
    rcases Nat.lt_or_eq_of_le (Nat.le_of_lt_succ hlevel) with hlt | rfl
    · rw [BlockScope.feeds_cons b hlt, Bool.and_eq_true] at hfeeds
      rw [if_pos hfeeds.1] at houter
      exact hinner.trans (ih houter hlt hfeeds.2)
    · exact hinner.trans hb.suffix

/-- More is stated inside. -/
lemma concat (h : Accounted L inner bs) (hL : Revised (· ++ [t]) L L' bs) :
    Accounted L' (inner ++ [t]) bs := by
  induction bs generalizing inner with
  | nil => trivial
  | cons b outer ih =>
    obtain ⟨hb, houter⟩ := h
    refine ⟨hL.head ▸ hb.concat, ?_⟩
    cases hi : b.inherits with
    | true =>
      rw [hi, if_pos rfl] at houter
      rw [if_pos rfl, ← List.append_assoc]
      exact ih houter (hL.tail hi)
    | false =>
      rw [hi] at houter
      exact houter.congr (hL.eq_of_owning hi)

/-- What is stated inside is taken away. -/
lemma dropLast (h : Accounted L (inner ++ [t]) bs) (hL : Revised List.dropLast L L' bs) :
    Accounted L' inner bs := by
  induction bs generalizing inner with
  | nil => trivial
  | cons b outer ih =>
    obtain ⟨hb, houter⟩ := h
    refine ⟨hL.head ▸ hb.dropLast, ?_⟩
    cases hi : b.inherits with
    | true =>
      rw [hi, if_pos rfl, ← List.append_assoc] at houter
      rw [if_pos rfl]
      exact ih houter (hL.tail hi)
    | false =>
      rw [hi] at houter
      exact houter.congr (hL.eq_of_owning hi)

/-- A statement moves outwards: the first of what is held inside, or the new one if nothing is, is
now held by the innermost of some blocks. -/
lemma append {p : Term} {inner' : List Term} (h : Accounted L inner bs)
    (hL : Revised (· ++ [t]) L L' bs) (hinner : inner ++ [t] = p :: inner') :
    Accounted L' inner' (BlockScope.append bs p) := by
  induction bs generalizing inner inner' p with
  | nil => trivial
  | cons b outer ih =>
    obtain ⟨hb, houter⟩ := h
    have hhead := hL.head
    obtain ⟨locals, statements, result, inherits, firstLocal⟩ := b
    cases result with
    | none =>
      obtain ⟨hs, hall⟩ := hb.fresh rfl
      obtain rfl : statements = [] := hs
      rw [hall, hinner] at hhead
      refine ⟨⟨hhead ▸ List.suffix_refl _, fun _ => hhead, fun _ => rfl, nofun⟩, ?_⟩
      cases inherits with
      | true =>
        have houter : Accounted L inner outer := houter
        have houter' : Accounted L' (p :: inner') outer := hinner ▸ houter.concat (hL.tail rfl)
        exact houter'
      | false => exact Accounted.congr houter (hL.eq_of_owning rfl)
    | some q =>
      cases inherits with
      | true =>
        -- The statement that was held so far moves on to the block around it.
        obtain rfl : statements = [] := hb.inheriting rfl
        have houter : Accounted L (q :: inner) outer := houter
        have houter' : Accounted L' (p :: inner') (BlockScope.append outer q) :=
          ih houter (hL.tail rfl) (congrArg _ hinner)
        refine ⟨⟨?_, nofun, fun _ => rfl, nofun⟩, houter'⟩
        obtain ⟨gone, hgone⟩ := hb.suffix
        rw [BlockScope.length_append, hhead, ← hgone]
        exact ⟨gone ++ [q], by simp [BlockScope.own, ← hinner]⟩
      | false =>
        have hstated : L' outer.length =
            BlockScope.own ⟨locals, q :: statements, some p, false, firstLocal⟩ ++ inner' := by
          rw [hhead, hb.owning rfl]
          simp [BlockScope.own, ← hinner]
        refine ⟨⟨hstated ▸ List.suffix_refl _, fun _ => hstated, nofun, nofun⟩, ?_⟩
        exact Accounted.congr houter (hL.eq_of_owning rfl)

end Accounted

/-! ### One instruction -/

/-- A block without its locals. -/
def BlockScope.nameless (b : BlockScope) : BlockScope := { b with locals := [] }

/-- Locals do not matter to what blocks hold. -/
lemma Accounted.congr_nameless {bs' : List BlockScope} (h : Accounted L inner bs)
    (hbs : bs'.map BlockScope.nameless = bs.map BlockScope.nameless) : Accounted L inner bs' := by
  induction bs generalizing bs' inner with
  | nil =>
    obtain rfl : bs' = [] := List.map_eq_nil_iff.1 hbs
    trivial
  | cons b outer ih =>
    obtain ⟨b', outer', rfl, hb', houter'⟩ := List.map_eq_cons_iff.1 hbs
    obtain ⟨hb, houter⟩ := h
    have hlength : outer'.length = outer.length := by simpa using congrArg List.length houter'
    obtain ⟨locals, statements, result, inherits, firstLocal⟩ := b
    obtain ⟨locals', statements', result', inherits', firstLocal'⟩ := b'
    obtain ⟨-, rfl, rfl, rfl, rfl⟩ := BlockScope.mk.inj hb'
    refine ⟨?_, ih houter houter'⟩
    rw [hlength]
    exact ⟨hb.suffix, hb.owning, hb.inheriting, hb.fresh⟩

namespace Machine

variable {past : Past} {m : Machine} {i : Instruction}

lemma stated_cons_of_le {level : Nat} (h : m.builder.blockDepth ≤ level) :
    stated ((m, i) :: past) level = [] := by
  rw [stated, if_pos h]

/-- An instruction revises what is stated. -/
lemma revised_stated (past : Past) (m : Machine) (i : Instruction) :
    Revised (m.post (stated past (m.builder.blockDepth - 1)) · i) (stated past)
      (stated ((m, i) :: past)) m.builder.blocks.live := by
  intro level hlevel
  have hdepth : level < m.builder.blockDepth := hlevel
  simp only [stated, if_neg (Nat.not_le.2 hdepth)]

/-- Only statements and ends of blocks count. -/
lemma post_eq_self (hi : ∀ l, i ≠ .popBlock l) (ht : i = .statement → m.operands = [])
    (innermost terms : List Term) : m.post innermost terms i = terms := by
  cases i with
  | statement => simp [post, ht rfl]
  | popBlock l => exact absurd rfl (hi l)
  | _ => rfl

lemma stated_eq_self (hi : ∀ l, i ≠ .popBlock l) (ht : i = .statement → m.operands = []) :
    ∀ level < m.builder.blocks.live.length, stated ((m, i) :: past) level = stated past level := by
  intro level hlevel
  have hrevised := revised_stated past m i level hlevel
  simp only [post_eq_self hi ht, ite_self] at hrevised
  exact hrevised

end Machine

namespace Accounted

open Machine

variable {past : Past} {m : Machine} {i : Instruction}

/-- At most locals are declared. -/
lemma keep (hi : ∀ l, i ≠ .popBlock l) (ht : i = .statement → m.operands = [])
    (hbs : bs.map BlockScope.nameless = m.builder.blocks.live.map BlockScope.nameless)
    (h : Accounted (stated past) [] m.builder.blocks.live) :
    Accounted (stated ((m, i) :: past)) [] bs :=
  (h.congr (stated_eq_self hi ht)).congr_nameless hbs

lemma statement {operands : List Term} (ht : m.operands = t :: operands)
    (h : Accounted (stated past) [] m.builder.blocks.live) :
    Accounted (stated ((m, .statement) :: past)) []
      (BlockScope.append m.builder.blocks.live t) := by
  have hrevised := revised_stated past m .statement
  simp only [post, ht, List.head?_cons, Option.toList_some] at hrevised
  exact h.append hrevised rfl

/-- A block opens, with no statements yet. -/
lemma push {inherits : Bool} {firstLocal : Nat} (hi : ∀ l, i ≠ .popBlock l)
    (ht : i = .statement → m.operands = [])
    (h : Accounted (stated past) [] m.builder.blocks.live) :
    Accounted (stated ((m, i) :: past)) []
      ({ inherits, firstLocal } :: m.builder.blocks.live) := by
  refine ⟨?_, ?_⟩
  · have hnone : stated ((m, i) :: past) m.builder.blocks.live.length = [] :=
      stated_cons_of_le le_rfl
    simp only [hnone]
    exact ⟨List.suffix_refl _, fun _ => rfl, fun _ => rfl, fun _ => ⟨rfl, rfl⟩⟩
  · have houter := h.congr (stated_eq_self hi ht)
    cases inherits <;> exact houter

/-- The innermost block closes. -/
lemma popBlock {l : Location} (hlive : m.builder.blocks.live = b :: outer)
    (h : Accounted (stated past) [] m.builder.blocks.live) :
    Accounted (stated ((m, .popBlock l) :: past)) [] outer := by
  have hrevised := revised_stated past m (.popBlock l)
  have hdepth : m.builder.blockDepth - 1 = outer.length := by
    rw [Builder.blockDepth, Pool.depth, hlive]
    rfl
  simp only [hlive, hdepth, post] at h hrevised
  obtain ⟨hb, houter⟩ := h
  cases hi : b.inherits with
  | false =>
    rw [hi] at houter
    exact houter.congr (hrevised.eq_of_owning hi)
  | true =>
    have hs := hb.inheriting hi
    have htail := hrevised.tail hi
    rw [hi, if_pos rfl, List.append_nil] at houter
    cases hr : b.result with
    | none =>
      have hnone : stated past outer.length = [] := (hb.fresh hr).2
      have hown : b.own = [] := by simp [BlockScope.own, hr, hs]
      rw [hown] at houter
      refine houter.congr fun level hlevel => ?_
      rw [htail level hlevel, hnone]
      exact ite_self _
    | some q =>
      have hown : b.own = [q] := by simp [BlockScope.own, hr, hs]
      have hsome : (stated past outer.length).isEmpty = false := by
        obtain ⟨gone, hgone⟩ := hb.suffix
        rw [← hgone, hown]
        simp
      rw [hown] at houter
      simp only [hsome] at htail
      exact Accounted.dropLast houter htail

/-- The body of a function keeps its statements, which go with it. -/
lemma popFunction {l : Location} (hlive : m.builder.blocks.live = b :: outer)
    (hb : b.inherits = false) (h : Accounted (stated past) [] m.builder.blocks.live) :
    Accounted (stated ((m, .popFunction l) :: past)) [] outer := by
  have hself : ∀ level < m.builder.blocks.live.length,
      stated ((m, .popFunction l) :: past) level = stated past level := stated_eq_self nofun nofun
  rw [hlive] at h hself
  have houter := h.2
  rw [hb] at houter
  refine Accounted.congr houter fun level hlevel => ?_
  exact hself level (Nat.lt_succ_of_lt hlevel)

end Accounted

namespace Machine

variable {past : Past} {m : Machine} {i : Instruction}

lemma nameless_step_declaring {f : FunctionScope} {fs : List FunctionScope} {b : BlockScope}
    {bs : List BlockScope} {n : String} {l : Location} (hf : m.builder.view.functions = f :: fs)
    (hb : m.builder.view.blocks = b :: bs) (hi : i = .declare n l ∨ i = .define n l) :
    (m.step i).1.builder.blocks.live.map BlockScope.nameless =
      m.builder.blocks.live.map BlockScope.nameless := by
  have hb' : m.builder.blocks.live = b :: bs := hb
  rcases builder_step_declaring hi with hstep | ⟨t, hstep⟩
  · rw [hstep]
  · rcases Builder.declare_cases hf hb n l with ⟨e, he⟩ | ⟨b', t', hok, -, hview⟩
    · rw [he] at hstep
      cases hstep
    · rw [hok] at hstep
      cases hstep
      have hlive : (m.step i).1.builder.blocks.live = _ := congrArg View.blocks hview
      rw [hlive, hb']
      rfl

lemma nameless_step_parameter {f : FunctionScope} {fs : List FunctionScope} {b : BlockScope}
    {bs : List BlockScope} (hf : m.builder.view.functions = f :: fs)
    (hb : m.builder.view.blocks = b :: bs) (n : String) (l : Location) :
    (m.step (.parameter n l)).1.builder.blocks.live.map BlockScope.nameless =
      m.builder.blocks.live.map BlockScope.nameless := by
  have hb' : m.builder.blocks.live = b :: bs := hb
  rcases m.step_parameter n l with ⟨hstep, -⟩ | ⟨hstep, -⟩
  · rw [hstep]
  · rcases Builder.addParameter_cases hf hb n l with ⟨e, he⟩ | ⟨b', hok, -, hview⟩
    · rw [he] at hstep
      cases hstep
    · obtain rfl : b' = _ := Except.ok.inj (hok.symm.trans hstep)
      have hlive : (m.step (.parameter n l)).1.builder.blocks.live = _ :=
        congrArg View.blocks hview
      rw [hlive, hb']
      rfl

/-- What an instruction can do to the open blocks of a machine. -/
inductive BlockChange (m : Machine) : Instruction → List BlockScope → Prop
  /-- At most a local is declared. -/
  | keep {i : Instruction} {bs : List BlockScope} (hi : i.IsInner)
      (ht : i = .statement → m.operands = [])
      (hbs : bs.map BlockScope.nameless = m.builder.blocks.live.map BlockScope.nameless) :
      BlockChange m i bs
  | statement {t : Term} {operands : List Term} (ht : m.operands = t :: operands) :
      BlockChange m .statement (BlockScope.append m.builder.blocks.live t)
  | pushFunction : BlockChange m .pushFunction ({} :: m.builder.blocks.live)
  | pushBlock (inherits : Bool) (firstLocal : Nat) :
      BlockChange m (.pushBlock inherits) ({ inherits, firstLocal } :: m.builder.blocks.live)
  | popBlock {b : BlockScope} {outer : List BlockScope} {l : Location}
      (hlive : m.builder.blocks.live = b :: outer) : BlockChange m (.popBlock l) outer
  /-- The body of a function does not inherit. -/
  | popFunction {b : BlockScope} {outer : List BlockScope} {l : Location}
      (hlive : m.builder.blocks.live = b :: outer) (hb : b.inherits = false) :
      BlockChange m (.popFunction l) outer

/-- A step changes the open blocks in one of the ways that there are. -/
lemma blockChange_step {ss : List Scope} (harranged : m.builder.view.Arranged ss)
    (hi : m.Allows i) : BlockChange m i (m.step i).1.builder.blocks.live := by
  cases i with
  | constant | get | push | drop => exact .keep trivial nofun rfl
  | assign => exact m.builder_step_assign ▸ .keep trivial nofun rfl
  | duplicate => exact m.builder_step_duplicate ▸ .keep trivial nofun rfl
  | pushFunction =>
    have hlive : (m.step .pushFunction).1.builder.blocks.live = _ :=
      congrArg View.blocks m.builder.view_pushFunction
    rw [hlive]
    exact .pushFunction
  | pushBlock inherits =>
    obtain ⟨f, fs, b, bs, hf, -, -⟩ := exists_open harranged hi id
    have hlive : (m.step (.pushBlock inherits)).1.builder.blocks.live = _ :=
      congrArg View.blocks (Builder.view_pushBlock_of_cons hf inherits)
    rw [hlive]
    exact .pushBlock inherits f.nextLocal
  | declare n l =>
    obtain ⟨f, fs, b, bs, hf, hb, -⟩ := exists_open harranged hi id
    exact .keep trivial nofun (nameless_step_declaring hf hb (.inl rfl))
  | define n l =>
    obtain ⟨f, fs, b, bs, hf, hb, -⟩ := exists_open harranged hi id
    exact .keep trivial nofun (nameless_step_declaring hf hb (.inr rfl))
  | parameter n l =>
    obtain ⟨f, fs, b, bs, hf, hb, -⟩ := exists_open harranged hi id
    exact .keep trivial nofun (nameless_step_parameter hf hb n l)
  | statement =>
    rw [builder_step_statement]
    cases ho : m.operands with
    | nil => exact .keep trivial (fun _ => ho) rfl
    | cons t operands => exact .statement ho
  | popBlock l =>
    obtain ⟨f, fs, b, bs, -, hb, -⟩ := exists_open harranged hi id
    have hlive : (m.step (.popBlock l)).1.builder.blocks.live = bs :=
      congrArg View.blocks (Builder.popBlock_eq_of_cons hb l).1
    rw [hlive]
    exact .popBlock hb
  | popFunction l =>
    obtain ⟨f, fs, b, bs, hf, hb, hinherits⟩ := exists_open harranged hi id
    have hlive : (m.step (.popFunction l)).1.builder.blocks.live = bs :=
      (Builder.view_popFunction hf hb l).2
    rw [hlive]
    exact .popFunction hb (hinherits l rfl)

/-- A change keeps account of what is stated. -/
lemma BlockChange.accounted {bs : List BlockScope} (h : BlockChange m i bs)
    (haccounted : Accounted (stated past) [] m.builder.blocks.live) :
    Accounted (stated ((m, i) :: past)) [] bs := by
  cases h with
  | keep hi ht hbs =>
    refine haccounted.keep ?_ ht hbs
    rintro l rfl
    exact hi
  | statement ht => exact haccounted.statement ht
  | pushFunction => exact haccounted.push nofun nofun
  | pushBlock => exact haccounted.push nofun nofun
  | popBlock hlive => exact haccounted.popBlock hlive
  | popFunction hlive hb => exact haccounted.popFunction hlive hb

/-- A block inherits as the instruction says that opens it, and for good. -/
lemma BlockChange.inherits {bs : List BlockScope} (h : BlockChange m i bs) :
    bs.map BlockScope.inherits = i.flags (m.builder.blocks.live.map BlockScope.inherits) := by
  cases h with
  | keep hi _ hbs =>
    have hsame : bs.map BlockScope.inherits = m.builder.blocks.live.map BlockScope.inherits := by
      have hmap := congrArg (List.map BlockScope.inherits) hbs
      rwa [List.map_map, List.map_map] at hmap
    rw [hsame]
    cases i with
    | pushFunction | popFunction | pushBlock | popBlock => exact hi.elim
    | _ => rfl
  | @statement t =>
    have hmap := congrArg (List.map BlockScope.inherits)
      (BlockScope.bare_append m.builder.blocks.live t)
    rwa [List.map_map, List.map_map] at hmap
  | pushFunction | pushBlock => rfl
  | popBlock hlive | popFunction hlive =>
    rw [hlive]
    rfl

/-- Along a history the open blocks are those that its instructions have opened and not closed
again, and each inherits as the instruction says that opened it. -/
theorem History.inherits_eq (h : History past m) :
    m.builder.blocks.live.map BlockScope.inherits = openings (past.map Prod.snd) := by
  induction h with
  | start => rfl
  | @step past m i h hi ih =>
    obtain ⟨ss, harranged⟩ := h.exists_arranged
    rw [(blockChange_step harranged hi).inherits, ih]
    rfl

lemma History.blockDepth_eq (h : History past m) :
    m.builder.blockDepth = (openings (past.map Prod.snd)).length := by
  rw [← h.inherits_eq, List.length_map]
  rfl

lemma History.feeds_eq (h : History past m) (level : Nat) :
    BlockScope.feeds m.builder.blocks.live level =
      ((openings (past.map Prod.snd)).take
        ((openings (past.map Prod.snd)).length - (level + 1))).all id := by
  rw [← h.inherits_eq, List.length_map, ← List.map_take, List.all_map, BlockScope.feeds]
  rfl

/-- What is stated in an open block depends on the instructions of the history and on the terms of
its statements, but not on what the builder holds. -/
theorem History.stated_cons (h : History past m) (i : Instruction) (level : Nat) :
    stated ((m, i) :: past) level =
      let flags := openings (past.map Prod.snd)
      if flags.length ≤ level then []
      else if (flags.take (flags.length - (level + 1))).all id then
        m.post (stated past (flags.length - 1)) (stated past level) i
      else stated past level := by
  rw [stated, h.feeds_eq, h.blockDepth_eq]

/-- Along a history the open blocks hold what is stated in each of them. -/
theorem History.accounted (h : History past m) :
    Accounted (stated past) [] m.builder.blocks.live := by
  induction h with
  | start => trivial
  | @step past m i h hi ih =>
    obtain ⟨ss, harranged⟩ := h.exists_arranged
    exact (blockChange_step harranged hi).accounted ih

/-- At any time of a history the innermost block yields what was stated in it when it closes: as
the body of a function does if it does not inherit, and else the last of it. What it yields then is
what is taken away from the blocks around it for which it counts. -/
theorem History.popBlock_eq_stated (h : History past m) {b : BlockScope} {outer : List BlockScope}
    (hlive : m.builder.blocks.live = b :: outer) (l : Location) :
    (m.builder.popBlock l).2 =
        (if b.inherits then (stated past outer.length).getLast?.getD (.undefined (some l))
        else closeBody (stated past outer.length) l) ∧
      ∀ level < outer.length, BlockScope.feeds m.builder.blocks.live level = true →
        ∀ t, (stated past outer.length).getLast? = some t →
          (stated past level).getLast? = some t := by
  have haccounted := h.accounted
  rw [hlive] at haccounted
  obtain ⟨hb, houter⟩ := haccounted
  constructor
  · rw [(Builder.popBlock_eq_of_cons hlive l).2]
    cases hi : b.inherits with
    | true =>
      rw [if_pos rfl, hb.getLast?_eq hi, BlockScope.value, if_pos hi]
    | false => exact hb.value_eq hi l
  · intro level hlevel hfeeds t ht
    rw [hlive, BlockScope.feeds_cons b hlevel, Bool.and_eq_true] at hfeeds
    obtain ⟨hi, hfeeds⟩ := hfeeds
    rw [hb.getLast?_eq hi] at ht
    have hown : b.own = [t] := by simp [BlockScope.own, ht, hb.inheriting hi]
    rw [if_pos hi, hown] at houter
    obtain ⟨gone, hgone⟩ := houter.suffix hlevel hfeeds
    rw [← hgone]
    exact List.getLast?_concat

/-- An inheriting block hands a statement on, yields another one, and that is stated again. -/
theorem History.popBlock_eq_stated_inheriting : ∃ past m,
    past.map Prod.snd =
      [.statement, .popBlock .unknown, .statement, .push (.setGlobal "c" (.undefined none) none),
        .statement, .push (.setGlobal "b" (.undefined none) none), .pushBlock true, .statement,
        .push (.setGlobal "a" (.undefined none) none), .pushBlock false, .pushFunction] ∧
    History past m ∧
    (m.builder.popBlock .unknown).2 =
      .block [.setGlobal "a" (.undefined none) none, .setGlobal "b" (.undefined none) none,
        .setGlobal "c" (.undefined none) none] (some .unknown) := by
  have h₁ := (History.start).step (i := .pushFunction) trivial
  have h₂ := h₁.step (i := .pushBlock false) trivial
  have h₃ := h₂.step (i := .push (.setGlobal "a" (.undefined none) none)) trivial
  have h₄ := h₃.step (i := .statement) trivial
  have h₅ := h₄.step (i := .pushBlock true) trivial
  have h₆ := h₅.step (i := .push (.setGlobal "b" (.undefined none) none)) trivial
  have h₇ := h₆.step (i := .statement) trivial
  have h₈ := h₇.step (i := .push (.setGlobal "c" (.undefined none) none)) trivial
  have h₉ := h₈.step (i := .statement) trivial
  have h₁₀ := h₉.step (i := .popBlock .unknown) (Nat.lt_add_left 1 Nat.one_lt_two)
  have h := h₁₀.step (i := .statement) trivial
  exact ⟨_, _, rfl, h, (h.popBlock_eq_stated rfl .unknown).1.trans rfl⟩

end Machine

end ScriptGraph
