import ScriptGraph.Builder.Machine
import ScriptGraph.Proofs.View

/-!
# Scopes

The open blocks of a builder belong to its open functions: a function has the blocks that were
opened since it was. A history is what came before a machine whose instructions all kept to the
contract of the builder. Along a history every instruction changes the innermost function only, or
opens a function, or closes one, because the body of a function hands no statement to the block
around it.
-/

namespace ScriptGraph

/-- An open function with its own open blocks, innermost first. -/
structure Scope where
  function : FunctionScope
  blocks : List BlockScope

/-- The scopes of some functions, innermost first, from all open blocks. -/
def scopesOf : List FunctionScope → List BlockScope → List Scope
  | [], _ => []
  | f :: fs, bs =>
    let own := bs.length - f.firstBlock
    ⟨f, bs.take own⟩ :: scopesOf fs (bs.drop own)

/-- The scopes of the open functions, innermost first. -/
def Builder.scopes (b : Builder) : List Scope := scopesOf b.functions.live b.blocks.live

/-- The scope of the open function that has a number of functions around it. -/
def Builder.scope? (b : Builder) (level : Nat) : Option Scope := b.scopes.reverse[level]?

/-! ### The contract -/

/-- Whether an instruction keeps to the contract outside of functions. -/
def Instruction.IsFree : Instruction → Prop
  | popFunction _ | pushBlock _ | popBlock _ | declare .. | define .. | parameter .. | statement =>
    False
  | _ => True

/-- Whether an instruction keeps to the contract inside a function: a block is closed only if it was
opened as one, a function only if no other block is open in it, and parameters come first and in the
body itself. -/
def Scope.Permits (s : Scope) : Instruction → Prop
  | .popFunction _ => s.blocks.length = 1
  | .popBlock _ => 1 < s.blocks.length
  | .parameter .. => s.blocks.length = 1 ∧ s.function.arity = s.function.nextLocal
  | _ => True

namespace Machine

/-- Whether an instruction keeps to the contract of the builder. -/
def Allows (m : Machine) (i : Instruction) : Prop :=
  match m.builder.scopes with
  | [] => i.IsFree
  | s :: _ => s.Permits i

/-- Instructions, the latest first, each with the machine before it. -/
abbrev Past : Type := List (Machine × Instruction)

/-- Whether a machine came about by instructions that kept to the contract, from an empty builder.
Instructions that fail count as well. -/
inductive History : Past → Machine → Prop
  | start : History [] {}
  | step {past : Past} {m : Machine} {i : Instruction} (h : History past m) (hi : m.Allows i) :
      History ((m, i) :: past) (m.step i).1

/-- The parameter that an instruction declares. -/
def parameter? (m : Machine) (i : Instruction) : Option String :=
  match i, (m.step i).2 with
  | .parameter name _, .ok _ => some name
  | _, _ => none

end Machine

/-! ### Blocks without their statements -/

namespace BlockScope

/-- A block without its statements. -/
def bare (b : BlockScope) : BlockScope := { b with statements := [], result := none }

/-- A block with one more local. -/
def withLocal (b : BlockScope) (name : String) (slot : Nat) : BlockScope :=
  { b with locals := (name, slot) :: b.locals }

@[simp] lemma bare_append (bs : List BlockScope) (t : Term) :
    (append bs t).map bare = bs.map bare := by
  induction bs generalizing t with
  | nil => rfl
  | cons b outer ih =>
    simp only [append]
    split
    · rfl
    · split
      · simp [bare, ih]
      · rfl

end BlockScope

/-- A function with one more local. -/
def FunctionScope.withLocal (f : FunctionScope) : FunctionScope :=
  { f with nextLocal := f.nextLocal + 1, localCount := max f.localCount (f.nextLocal + 1) }

/-- Whether the outermost of some blocks, the body of their function, keeps its statements. -/
def Founded (bs : List BlockScope) : Prop := bs.getLast?.map BlockScope.inherits = some false

lemma Founded.congr {bs bs' : List BlockScope} (h : Founded bs)
    (hbare : bs'.map BlockScope.bare = bs.map BlockScope.bare) : Founded bs' := by
  have hlast : (bs'.map BlockScope.bare).getLast? = (bs.map BlockScope.bare).getLast? := by
    rw [hbare]
  rw [List.getLast?_map, List.getLast?_map] at hlast
  have hinherits := congrArg (Option.map BlockScope.inherits) hlast
  rw [Option.map_map, Option.map_map] at hinherits
  exact hinherits.trans h

lemma Founded.exists_cons {bs : List BlockScope} (h : Founded bs) : ∃ b outer, bs = b :: outer := by
  cases bs with
  | nil => cases h
  | cons b outer => exact ⟨b, outer, rfl⟩

lemma Founded.cons {bs : List BlockScope} (h : Founded bs) (b : BlockScope) :
    Founded (b :: bs) := by
  obtain ⟨c, outer, rfl⟩ := h.exists_cons
  rwa [Founded, List.getLast?_cons_cons]

lemma Founded.tail {b : BlockScope} {bs : List BlockScope} (h : Founded (b :: bs)) (hbs : bs ≠ []) :
    Founded bs := by
  obtain ⟨c, outer, rfl⟩ := List.exists_cons_of_ne_nil hbs
  rwa [Founded, List.getLast?_cons_cons] at h

/-- The statements of a function stay in its own blocks. -/
lemma Founded.append {bs : List BlockScope} (h : Founded bs) (outer : List BlockScope) (t : Term) :
    BlockScope.append (bs ++ outer) t = BlockScope.append bs t ++ outer := by
  induction bs generalizing t with
  | nil => cases h
  | cons b bs ih =>
    rw [List.cons_append, BlockScope.append, BlockScope.append]
    cases b.result with
    | none => rfl
    | some previous =>
      cases hb : b.inherits with
      | false => rfl
      | true =>
        have hbs : bs ≠ [] := by
          rintro rfl
          simp [Founded, hb] at h
        simp [ih (h.tail hbs)]

/-! ### Arrangements -/

/-- Whether each function begins above the blocks of those around it and has its body. -/
def Nested : List Scope → Prop
  | [] => True
  | s :: outer =>
    s.function.firstBlock = (outer.flatMap Scope.blocks).length ∧ Founded s.blocks ∧ Nested outer

/-- Whether what a builder holds is made of some scopes. -/
structure View.Arranged (v : View) (ss : List Scope) : Prop where
  functions : v.functions = ss.map Scope.function
  blocks : v.blocks = ss.flatMap Scope.blocks
  nested : Nested ss

lemma Nested.scopesOf_eq {ss : List Scope} (h : Nested ss) :
    scopesOf (ss.map Scope.function) (ss.flatMap Scope.blocks) = ss := by
  induction ss with
  | nil => rfl
  | cons s outer ih =>
    obtain ⟨hfirst, -, houter⟩ := h
    rw [List.map_cons, List.flatMap_cons, scopesOf, hfirst]
    simp only [List.length_append, Nat.add_sub_cancel, List.take_left', List.drop_left', ih houter]

/-- What is left of an arrangement if the innermost scope changes. -/
lemma View.Arranged.of_view {v v' : View} {s s' : Scope} {ss : List Scope}
    (h : v.Arranged (s :: ss)) (hfunctions : v'.functions = s'.function :: ss.map Scope.function)
    (hblocks : v'.blocks = s'.blocks ++ ss.flatMap Scope.blocks)
    (hfirst : s'.function.firstBlock = s.function.firstBlock) (hfounded : Founded s'.blocks) :
    v'.Arranged (s' :: ss) := by
  obtain ⟨hs, -, hss⟩ := h.nested
  exact ⟨hfunctions, by rw [hblocks, List.flatMap_cons], hfirst.trans hs, hfounded, hss⟩

lemma View.Arranged.withLocal {v v' : View} {f f' : FunctionScope} {b : BlockScope}
    {bs : List BlockScope} {ss : List Scope} {n : String} {i : Nat}
    (h : v.Arranged (⟨f, b :: bs⟩ :: ss))
    (hview : v' = { v with
      functions := f' :: ss.map Scope.function
      blocks := b.withLocal n i :: (bs ++ ss.flatMap Scope.blocks) })
    (hfirst : f'.firstBlock = f.firstBlock) : v'.Arranged (⟨f', b.withLocal n i :: bs⟩ :: ss) := by
  obtain ⟨-, hfounded, -⟩ := h.nested
  subst hview
  refine h.of_view rfl rfl hfirst ?_
  cases bs with
  | nil => exact hfounded
  | cons c bs => exact (hfounded.tail (List.cons_ne_nil c bs)).cons _

lemma View.Arranged.pushFunction {v : View} {ss : List Scope} (h : v.Arranged ss) :
    v.pushFunction.Arranged (⟨{ firstBlock := v.blocks.length }, [{}]⟩ :: ss) where
  functions := congrArg _ h.functions
  blocks := congrArg _ h.blocks
  nested := ⟨congrArg List.length h.blocks, rfl, h.nested⟩

namespace Builder

/-- The scopes of a builder that is made of some are these. -/
lemma scopes_eq {b : Builder} {ss : List Scope} (h : b.view.Arranged ss) : b.scopes = ss := by
  have hfunctions : b.functions.live = ss.map Scope.function := h.functions
  have hblocks : b.blocks.live = ss.flatMap Scope.blocks := h.blocks
  rw [scopes, hfunctions, hblocks, h.nested.scopesOf_eq]

lemma functionDepth_eq {b : Builder} {ss : List Scope} (h : b.view.Arranged ss) :
    b.functionDepth = ss.length := by
  have hfunctions : b.functions.live = ss.map Scope.function := h.functions
  rw [functionDepth, Pool.depth, hfunctions, List.length_map]

lemma blockDepth_eq {b : Builder} {ss : List Scope} (h : b.view.Arranged ss) :
    b.blockDepth = (ss.flatMap Scope.blocks).length := by
  have hblocks : b.blocks.live = ss.flatMap Scope.blocks := h.blocks
  rw [blockDepth, Pool.depth, hblocks]

/-! ### Operations -/

variable {b : Builder} {f : FunctionScope} {fs : List FunctionScope} {block : BlockScope}
  {blocks : List BlockScope}

/-- A declaration fails, or it gives the next slot to a name that is new in its block. -/
lemma declare_cases (hf : b.view.functions = f :: fs) (hb : b.view.blocks = block :: blocks)
    (n : String) (l : Location) :
    (∃ e, b.declare n l = .error e) ∨
      ∃ b' t, b.declare n l = .ok (b', t) ∧ block.locals.lookup n = none ∧
        b'.view = { b.view with
          functions := f.withLocal :: fs
          blocks := block.withLocal n f.nextLocal :: blocks } := by
  have hf' : b.functions.live = f :: fs := hf
  have hb' : b.blocks.live = block :: blocks := hb
  simp only [declare, Pool.top?, hf', hb', List.head?_cons]
  cases hn : block.locals.lookup n with
  | some i => exact .inl ⟨_, rfl⟩
  | none =>
    refine .inr ⟨_, _, rfl, rfl, ?_⟩
    simp only [view, view_modifyTop, hf', hb', List.modifyHead_cons]
    rfl

lemma addParameter_cases (hf : b.view.functions = f :: fs) (hb : b.view.blocks = block :: blocks)
    (n : String) (l : Location) :
    (∃ e, b.addParameter n l = .error e) ∨
      ∃ b', b.addParameter n l = .ok b' ∧ block.locals.lookup n = none ∧
        b'.view = { b.view with
          functions := { f.withLocal with arity := f.arity + 1 } :: fs
          blocks := block.withLocal n f.nextLocal :: blocks } := by
  rw [addParameter]
  rcases declare_cases hf hb n l with ⟨e, he⟩ | ⟨b', t, hd, hn, hview⟩
  · exact .inl ⟨e, by rw [he]; rfl⟩
  · refine .inr ⟨_, by rw [hd]; rfl, hn, ?_⟩
    have hf' : b'.functions.live = f.withLocal :: fs := congrArg View.functions hview
    have hb' : b'.blocks.live = block.withLocal n f.nextLocal :: blocks :=
      congrArg View.blocks hview
    have hg : b'.graph = b.graph := congrArg View.graph hview
    simp only [view, view_modifyTop, hf', hb', hg, List.modifyHead_cons]
    rfl

lemma view_pushBlock_of_cons (hf : b.view.functions = f :: fs) (inherits : Bool) :
    (b.pushBlock inherits).view = b.view.pushBlock inherits f.nextLocal := by
  have hf' : b.functions.live = f :: fs := hf
  simp [view, pushBlock, View.pushBlock, BlockScope.reset, Pool.top?, hf']

/-- The end of a function takes it and its last block away. -/
lemma view_popFunction (hf : b.view.functions = f :: fs) (hb : b.view.blocks = block :: blocks)
    (l : Location) :
    (b.popFunction l).1.view.functions = fs ∧ (b.popFunction l).1.view.blocks = blocks := by
  obtain ⟨hview, -⟩ := popBlock_eq_of_cons hb l
  have hf' : (b.popBlock l).1.functions.live = { f with nextLocal := block.firstLocal } :: fs := by
    have := congrArg View.functions hview
    rwa [hf] at this
  have hb' : (b.popBlock l).1.blocks.live = blocks := congrArg View.blocks hview
  simp only [popFunction, Pool.top?, hf', List.head?_cons]
  split <;> simp [view, hf', hb']

end Builder

/-! ### Steps -/

/-- What an instruction can do to the innermost scope of a machine. -/
inductive Scope.Turn (m : Machine) (i : Instruction) : Scope → Scope → Prop
  /-- Statements come and go, if anything. -/
  | keep {f : FunctionScope} {bs bs' : List BlockScope} (hi : m.parameter? i = none)
      (hbare : bs'.map BlockScope.bare = bs.map BlockScope.bare) : Turn m i ⟨f, bs⟩ ⟨f, bs'⟩
  | declare {f : FunctionScope} {b : BlockScope} {bs : List BlockScope} {n : String}
      (hi : m.parameter? i = none) (hn : b.locals.lookup n = none) :
      Turn m i ⟨f, b :: bs⟩ ⟨f.withLocal, b.withLocal n f.nextLocal :: bs⟩
  | parameter {f : FunctionScope} {b : BlockScope} {n : String} (hi : m.parameter? i = some n)
      (hn : b.locals.lookup n = none) (hf : f.arity = f.nextLocal) :
      Turn m i ⟨f, [b]⟩
        ⟨{ f.withLocal with arity := f.arity + 1 }, [b.withLocal n f.nextLocal]⟩
  | pushBlock {f : FunctionScope} {bs : List BlockScope} {inherits : Bool}
      (hi : i = .pushBlock inherits) :
      Turn m i ⟨f, bs⟩ ⟨f, { inherits, firstLocal := f.nextLocal } :: bs⟩
  | popBlock {f : FunctionScope} {b : BlockScope} {bs : List BlockScope} {l : Location}
      (hi : i = .popBlock l) (hbs : bs ≠ []) :
      Turn m i ⟨f, b :: bs⟩ ⟨{ f with nextLocal := b.firstLocal }, bs⟩

/-- What an instruction can do to the scopes of a machine. -/
inductive Change (m : Machine) (i : Instruction) : List Scope → List Scope → Prop
  | idle : Change m i [] []
  | turn {s s' : Scope} {outer : List Scope} (h : s.Turn m i s') :
      Change m i (s :: outer) (s' :: outer)
  | pushFunction {ss : List Scope} {firstBlock : Nat} (hi : i = .pushFunction) :
      Change m i ss (⟨{ firstBlock }, [{}]⟩ :: ss)
  | popFunction {s : Scope} {outer : List Scope} {l : Location} (hi : i = .popFunction l) :
      Change m i (s :: outer) outer

/-- Whatever an instruction does, the functions around the innermost one stay as they are. -/
lemma Change.tail_suffix {m : Machine} {i : Instruction} {ss ss' : List Scope}
    (h : Change m i ss ss') : ss.tail <:+ ss' := by
  cases h with
  | idle => exact List.suffix_refl _
  | turn => exact List.suffix_cons _ _
  | pushFunction => exact (List.tail_suffix _).trans (List.suffix_cons _ _)
  | popFunction => exact List.suffix_refl _

namespace Machine

variable {m : Machine} {ss : List Scope}

lemma allows_nil {i : Instruction} (h : m.builder.view.Arranged []) : m.Allows i ↔ i.IsFree := by
  rw [Allows, Builder.scopes_eq h]

lemma allows_cons {s : Scope} {i : Instruction} (h : m.builder.view.Arranged (s :: ss)) :
    m.Allows i ↔ s.Permits i := by
  rw [Allows, Builder.scopes_eq h]

/-- An instruction that fails leaves the builder as it was. -/
lemma builder_of_error {m : Machine} {i : Instruction} {e : Error} (h : (m.step i).2 = .error e) :
    (m.step i).1.builder = m.builder := by
  cases i with
  | declare | parameter =>
    simp only [step] at h ⊢
    split at h
    · cases h
    · rfl
  | define n l =>
    simp only [step] at h ⊢
    split at h
    · split at h
      · cases h
      · rfl
    · rfl
    · cases h
  | assign =>
    simp only [step] at h ⊢
    split at h
    · split at h
      · cases h
      · rfl
    · cases h
  | statement | duplicate =>
    simp only [step] at h
    split at h <;> cases h
  | _ => cases h

/-- An assignment is a term, of which the builder knows nothing. -/
lemma builder_step_assign (m : Machine) : (m.step .assign).1.builder = m.builder := by
  simp only [step]
  split
  · split <;> rfl
  · rfl

lemma builder_step_duplicate (m : Machine) : (m.step .duplicate).1.builder = m.builder := by
  simp only [step]
  split <;> rfl

/-- A statement is the last term, if there is one. -/
lemma builder_step_statement (m : Machine) :
    (m.step .statement).1.builder =
      (m.operands.head?.map m.builder.addStatement).getD m.builder := by
  cases ho : m.operands <;> simp only [step, ho] <;> rfl

/-- A local is declared with or without a value, or the builder stays as it is. -/
lemma builder_step_declaring {i : Instruction} {n : String} {l : Location}
    (hi : i = .declare n l ∨ i = .define n l) :
    (m.step i).1.builder = m.builder ∨
      ∃ t, m.builder.declare n l = .ok ((m.step i).1.builder, t) := by
  cases hd : m.builder.declare n l with
  | error e =>
    left
    rcases hi with rfl | rfl <;> simp only [step, hd]
  | ok r =>
    obtain ⟨b', t⟩ := r
    rcases hi with rfl | rfl
    · right
      exact ⟨t, by simp only [step, hd, yield]⟩
    · cases ho : m.operands with
      | nil =>
        left
        simp only [step, ho, hd]
      | cons v operands =>
        cases ha : Builder.assign t v with
        | error e =>
          left
          simp only [step, ho, hd, ha]
        | ok u =>
          right
          exact ⟨t, by simp only [step, ho, hd, ha, yield]⟩

lemma step_parameter (m : Machine) (n : String) (l : Location) :
    (m.step (.parameter n l)).1.builder = m.builder ∧ m.parameter? (.parameter n l) = none ∨
      m.builder.addParameter n l = .ok (m.step (.parameter n l)).1.builder ∧
        m.parameter? (.parameter n l) = some n := by
  cases hd : m.builder.addParameter n l with
  | error e =>
    left
    constructor <;> simp only [parameter?, step, hd]
  | ok b' =>
    right
    constructor <;> simp only [parameter?, step, hd]

/-- A step outside of functions changes nothing, or opens a function. -/
lemma exists_change_nil (h : m.builder.view.Arranged []) {i : Instruction} (hi : i.IsFree) :
    ∃ ss', (m.step i).1.builder.view.Arranged ss' ∧ Change m i [] ss' := by
  match i with
  | .constant v l | .get n l | .push t | .drop => exact ⟨[], h, .idle⟩
  | .assign => exact ⟨[], m.builder_step_assign ▸ h, .idle⟩
  | .duplicate => exact ⟨[], m.builder_step_duplicate ▸ h, .idle⟩
  | .pushFunction =>
    exact ⟨_, (m.builder.view_pushFunction).symm ▸ h.pushFunction, .pushFunction rfl⟩

lemma exists_change_declaring {f : FunctionScope} {b : BlockScope} {bs : List BlockScope}
    {outer : List Scope} {i : Instruction} {n : String} {l : Location}
    (h : m.builder.view.Arranged (⟨f, b :: bs⟩ :: outer))
    (hi : i = .declare n l ∨ i = .define n l) (hp : m.parameter? i = none) :
    ∃ ss', (m.step i).1.builder.view.Arranged ss' ∧ Change m i (⟨f, b :: bs⟩ :: outer) ss' := by
  rcases m.builder_step_declaring hi with hstep | ⟨t, hstep⟩
  · exact ⟨_, hstep ▸ h, .turn (.keep hp rfl)⟩
  · rcases Builder.declare_cases h.functions h.blocks n l with ⟨e, he⟩ | ⟨b', t', hok, hn, hview⟩
    · rw [he] at hstep
      cases hstep
    · rw [hok] at hstep
      cases hstep
      exact ⟨_, h.withLocal (hview.trans rfl) rfl, .turn (.declare hp hn)⟩

/-- A step keeps the arrangement and changes the scopes in one of the ways that there are. -/
theorem exists_change (h : m.builder.view.Arranged ss) {i : Instruction} (hi : m.Allows i) :
    ∃ ss', (m.step i).1.builder.view.Arranged ss' ∧ Change m i ss ss' := by
  cases ss with
  | nil => exact exists_change_nil h ((allows_nil h).1 hi)
  | cons s outer =>
    have hpermits := (allows_cons h).1 hi
    obtain ⟨hfirst, hfounded, houter⟩ := h.nested
    obtain ⟨f, bs⟩ := s
    obtain ⟨b, bs, rfl⟩ := hfounded.exists_cons
    have hf : m.builder.view.functions = f :: outer.map Scope.function := h.functions
    have hb : m.builder.view.blocks = b :: (bs ++ outer.flatMap Scope.blocks) := h.blocks
    match i with
    | .constant v l | .get n l | .push t | .drop => exact ⟨_, h, .turn (.keep rfl rfl)⟩
    | .assign => exact ⟨_, m.builder_step_assign ▸ h, .turn (.keep rfl rfl)⟩
    | .duplicate => exact ⟨_, m.builder_step_duplicate ▸ h, .turn (.keep rfl rfl)⟩
    | .pushFunction =>
      exact ⟨_, (m.builder.view_pushFunction).symm ▸ h.pushFunction, .pushFunction rfl⟩
    | .popFunction l =>
      have hbs : bs = [] := by simpa [Scope.Permits] using hpermits
      subst hbs
      obtain ⟨hfunctions, hblocks⟩ := Builder.view_popFunction hf hb l
      exact ⟨outer, ⟨hfunctions, hblocks, houter⟩, .popFunction rfl⟩
    | .pushBlock inherits =>
      have hview := Builder.view_pushBlock_of_cons hf inherits
      refine ⟨⟨f, { inherits, firstLocal := f.nextLocal } :: b :: bs⟩ :: outer, ?_,
        .turn (.pushBlock rfl)⟩
      refine h.of_view ?_ ?_ rfl (hfounded.cons _)
      · exact (congrArg View.functions hview).trans hf
      · exact (congrArg View.blocks hview).trans (congrArg _ hb)
    | .popBlock l =>
      have hbs : bs ≠ [] := by
        rintro rfl
        simp [Scope.Permits] at hpermits
      obtain ⟨hview, -⟩ := Builder.popBlock_eq_of_cons hb l
      rw [hf] at hview
      refine ⟨⟨{ f with nextLocal := b.firstLocal }, bs⟩ :: outer, ?_, .turn (.popBlock rfl hbs)⟩
      refine h.of_view ?_ ?_ rfl (hfounded.tail hbs)
      · exact congrArg View.functions hview
      · exact congrArg View.blocks hview
    | .declare n l =>
      exact exists_change_declaring h (.inl rfl) rfl
    | .define n l =>
      exact exists_change_declaring h (.inr rfl) rfl
    | .parameter n l =>
      obtain ⟨hbs, harity⟩ : bs = [] ∧ f.arity = f.nextLocal := by
        simpa [Scope.Permits] using hpermits
      subst hbs
      rcases m.step_parameter n l with ⟨hstep, hi⟩ | ⟨hstep, hi⟩
      · exact ⟨_, hstep ▸ h, .turn (.keep hi rfl)⟩
      · rcases Builder.addParameter_cases hf hb n l with ⟨e, he⟩ | ⟨b', hok, hn, hview⟩
        · rw [he] at hstep
          cases hstep
        · obtain rfl : b' = _ := Except.ok.inj (hok.symm.trans hstep)
          exact ⟨_, h.withLocal (hview.trans rfl) rfl, .turn (.parameter hi hn harity)⟩
    | .statement =>
      cases ho : m.operands with
      | nil => exact ⟨_, by rwa [builder_step_statement, ho], .turn (.keep rfl rfl)⟩
      | cons t operands =>
        have hbare := BlockScope.bare_append (b :: bs) t
        refine ⟨⟨f, BlockScope.append (b :: bs) t⟩ :: outer, ?_, .turn (.keep rfl hbare)⟩
        rw [builder_step_statement, ho]
        refine h.of_view hf ?_ rfl (hfounded.congr hbare)
        rw [← hfounded.append]
        exact congrArg (BlockScope.append · t) hb

/-- Along a history the open blocks belong to the open functions. -/
lemma History.exists_arranged {past : Past} (h : History past m) :
    ∃ ss, m.builder.view.Arranged ss := by
  induction h with
  | start => exact ⟨[], rfl, rfl, trivial⟩
  | step h hi ih =>
    obtain ⟨ss, harranged⟩ := ih
    obtain ⟨ss', harranged', -⟩ := exists_change harranged hi
    exact ⟨ss', harranged'⟩

/-- What keeps to the contract only inside a function finds one, and its body keeps its
statements. -/
lemma exists_open (h : m.builder.view.Arranged ss) {i : Instruction} (hi : m.Allows i)
    (hfree : ¬i.IsFree) :
    ∃ f fs b bs, m.builder.view.functions = f :: fs ∧ m.builder.view.blocks = b :: bs ∧
      ∀ l, i = .popFunction l → b.inherits = false := by
  cases ss with
  | nil => exact absurd ((allows_nil h).1 hi) hfree
  | cons s outer =>
    have hpermits := (allows_cons h).1 hi
    have hfounded := h.nested.2.1
    obtain ⟨f, bs⟩ := s
    obtain ⟨b, bs, rfl⟩ := hfounded.exists_cons
    refine ⟨f, _, b, _, h.functions, h.blocks, ?_⟩
    rintro l rfl
    have hbs : bs = [] := by simpa [Scope.Permits] using hpermits
    subst hbs
    exact Option.some.inj hfounded

end Machine

end ScriptGraph
