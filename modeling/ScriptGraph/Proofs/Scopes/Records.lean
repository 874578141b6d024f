import Mathlib.Order.Bounds.Basic
import ScriptGraph.Proofs.Scopes.Slots

/-!
# Records of open functions

A function and its blocks have on record how many slots were in use at most, which locals are
parameters and how many slots were in use when a block was opened. The history since the function
was opened bears them out, and what happens inside a function leaves the records of those around it
as they are.
-/

namespace ScriptGraph

lemma getElem?_concat {α : Type} {x y : α} {l : List α} {k : Nat} :
    (l ++ [x])[k]? = some y ↔ l[k]? = some y ∨ k = l.length ∧ x = y := by
  rcases Nat.lt_trichotomy k l.length with h | rfl | h
  · rw [List.getElem?_append_left h]
    simp [h.ne]
  · simp
  · have hlen : (l ++ [x]).length ≤ k := by
      rw [List.length_append]
      exact h
    rw [List.getElem?_eq_none hlen, List.getElem?_eq_none h.le]
    simp [h.ne']

/-- Elements are counted from the end of a list. -/
lemma getElem?_reverse_cons {α : Type} {x y : α} {l : List α} {k : Nat} :
    (x :: l).reverse[k]? = some y ↔ l.reverse[k]? = some y ∨ k = l.length ∧ x = y := by
  rw [List.reverse_cons, getElem?_concat, List.length_reverse]

/-! ### The history of a function -/

namespace Machine

/-- What came since the open function with a number of functions around it was opened. -/
def since (level : Nat) (past : Past) : Past :=
  past.takeWhile fun e => decide (level < e.1.builder.functionDepth)

/-- The numbers of slots in use that an open function has had so far. -/
def heights (level : Nat) (past : Past) (m : Machine) : Set Nat :=
  {n | ∃ m' ∈ m :: (since level past).map Prod.fst, ∃ s, m'.builder.scope? level = some s ∧
    s.function.nextLocal = n}

/-- The parameters that an open function has declared, in order. -/
def parameters (level : Nat) (past : Past) : List String :=
  (since level past).reverse.filterMap fun e =>
    if e.1.builder.functionDepth = level + 1 then e.1.parameter? e.2 else none

/-- The instruction that opened the open block with a number of blocks around it, and the machine
before it. -/
def opening? (past : Past) (depth : Nat) : Option (Machine × Instruction) :=
  past.find? fun e => decide (e.1.builder.blockDepth ≤ depth)

variable {past : Past} {m m' : Machine} {i : Instruction} {level : Nat} {s : Scope}

lemma since_cons_of_lt (h : level < m.builder.functionDepth) :
    since level ((m, i) :: past) = (m, i) :: since level past :=
  List.takeWhile_cons_of_pos (by simpa using h)

lemma since_cons_of_le (h : m.builder.functionDepth ≤ level) :
    since level ((m, i) :: past) = [] :=
  List.takeWhile_cons_of_neg (by simpa using h)

lemma opening?_cons_of_lt {depth : Nat} (h : depth < m.builder.blockDepth) :
    opening? ((m, i) :: past) depth = opening? past depth :=
  List.find?_cons_of_neg (by simpa using h)

lemma opening?_cons_of_le {depth : Nat} (h : m.builder.blockDepth ≤ depth) :
    opening? ((m, i) :: past) depth = some (m, i) :=
  List.find?_cons_of_pos (by simpa using h)

lemma heights_cons_of_lt (h : level < m.builder.functionDepth)
    (hs : m'.builder.scope? level = some s) :
    heights level ((m, i) :: past) m' = insert s.function.nextLocal (heights level past m) := by
  ext n
  simp [heights, since_cons_of_lt h, hs, eq_comm]

lemma heights_cons_of_le (h : m.builder.functionDepth ≤ level)
    (hs : m'.builder.scope? level = some s) :
    heights level ((m, i) :: past) m' = {s.function.nextLocal} := by
  ext n
  simp [heights, since_cons_of_le h, hs, eq_comm]

lemma nextLocal_mem_heights (hs : m.builder.scope? level = some s) :
    s.function.nextLocal ∈ heights level past m :=
  ⟨m, List.mem_cons_self, s, hs, rfl⟩

lemma parameters_cons_of_eq (h : level + 1 = m.builder.functionDepth) :
    parameters level ((m, i) :: past) = parameters level past ++ (m.parameter? i).toList := by
  rw [parameters, since_cons_of_lt (by omega), List.reverse_cons, List.filterMap_append, parameters]
  cases hi : m.parameter? i <;> simp [h, hi]

lemma parameters_cons_of_lt (h : level + 1 < m.builder.functionDepth) :
    parameters level ((m, i) :: past) = parameters level past := by
  rw [parameters, since_cons_of_lt (by omega), List.reverse_cons, List.filterMap_append, parameters]
  simp [h.ne']

end Machine

/-! ### One instruction -/

namespace Scope

/-- The slot of a local of the body of a function. -/
def bodySlot? (s : Scope) (n : String) : Option Nat :=
  s.blocks.getLast?.bind fun b => b.locals.lookup n

/-- The first slots of the open blocks, outermost first. -/
def starts (s : Scope) : List Nat := (s.blocks.map BlockScope.firstLocal).reverse

variable {m : Machine} {i : Instruction} {s s' : Scope}

/-- Only a parameter counts as one. -/
lemma Turn.arity (h : s.Turn m i s') :
    s'.function.arity = s.function.arity + (m.parameter? i).toList.length := by
  cases h with
  | keep hi | declare hi | parameter hi | pushBlock hi | popBlock hi =>
    rw [hi]
    rfl

/-- A local of the body of a function stays. -/
lemma Turn.bodySlot? {n : String} {k : Nat} (h : s.Turn m i s') (hk : s.bodySlot? n = some k) :
    s'.bodySlot? n = some k := by
  rw [Scope.bodySlot?, Option.bind_eq_some_iff] at hk ⊢
  obtain ⟨body, hbody, hk⟩ := hk
  cases h with
  | @keep f bs bs' hi hbare =>
    have hlast := congrArg List.getLast? hbare
    rw [List.getLast?_map, List.getLast?_map, hbody] at hlast
    obtain ⟨body', hbody', hbare'⟩ := Option.map_eq_some_iff.1 hlast
    have hlocals : body'.locals = body.locals := (congrArg BlockScope.locals hbare' :)
    exact ⟨body', hbody', hlocals ▸ hk⟩
  | @declare f b bs n' hi hn =>
    cases bs with
    | nil =>
      obtain rfl : b = body := Option.some.inj hbody
      exact ⟨_, rfl, BlockScope.lookup_withLocal hn hk⟩
    | cons c bs =>
      rw [List.getLast?_cons_cons] at hbody
      exact ⟨body, by rwa [List.getLast?_cons_cons], hk⟩
  | parameter hi hn hf =>
    obtain rfl := Option.some.inj hbody
    exact ⟨_, rfl, BlockScope.lookup_withLocal hn hk⟩
  | pushBlock hi => exact ⟨body, by rw [List.getLast?_cons, hbody]; rfl, hk⟩
  | @popBlock f b bs l hi hbs =>
    rw [List.getLast?_cons_of_ne_nil hbs] at hbody
    exact ⟨body, hbody, hk⟩

/-- A new parameter takes the slot after those of the others. -/
lemma Turn.bodySlot?_of_parameter {n : String} (h : s.Turn m i s') (hn : m.parameter? i = some n) :
    s'.bodySlot? n = some s.function.arity := by
  cases h with
  | parameter hi hn' hf =>
    obtain rfl := Option.some.inj (hi.symm.trans hn)
    simp [Scope.bodySlot?, BlockScope.withLocal, hf]
  | keep hi | declare hi =>
    rw [hi] at hn
    cases hn
  | pushBlock hi | popBlock hi =>
    rw [hi] at hn
    cases hn

lemma Turn.starts {n k : Nat} (h : s.Turn m i s') (hk : s'.starts[k]? = some n) :
    s.starts[k]? = some n ∨
      k = s.blocks.length ∧ n = s.function.nextLocal ∧ ∃ inherits, i = .pushBlock inherits := by
  cases h with
  | @keep f bs bs' hi hbare =>
    have hfirst : bs'.map BlockScope.firstLocal = bs.map BlockScope.firstLocal := by
      have := congrArg (List.map BlockScope.firstLocal) hbare
      rwa [List.map_map, List.map_map] at this
    left
    rwa [Scope.starts, hfirst] at hk
  | declare hi hn => exact .inl hk
  | parameter hi hn hf => exact .inl hk
  | @pushBlock f bs inherits hi =>
    rw [Scope.starts, List.map_cons, getElem?_reverse_cons] at hk
    rcases hk with hk | ⟨rfl, rfl⟩
    · exact .inl hk
    · exact .inr ⟨List.length_map _, rfl, inherits, hi⟩
  | @popBlock f b bs l hi hbs =>
    left
    rw [Scope.starts, List.map_cons, getElem?_reverse_cons]
    exact .inl hk

lemma Turn.firstBlock (h : s.Turn m i s') : s'.function.firstBlock = s.function.firstBlock := by
  cases h <;> rfl

end Scope

/-- An open function after an instruction is a new one, or it was the innermost one before and is
changed, or it is as before. -/
lemma Change.scope_cases {m : Machine} {i : Instruction} {ss ss' : List Scope} {level : Nat}
    {s' : Scope} (h : Change m i ss ss') (hs' : ss'.reverse[level]? = some s') :
    (level = ss.length ∧ ∃ firstBlock, s' = ⟨{ firstBlock }, [{}]⟩) ∨
      ∃ s, ss.reverse[level]? = some s ∧
        ((∃ outer, ss = s :: outer ∧ level = outer.length) ∧ s.Turn m i s' ∨
          s' = s ∧ (level + 1 = ss.length → m.parameter? i = none)) := by
  have hbelow {ss : List Scope} {s : Scope} (hs : ss.reverse[level]? = some s) :
      level < ss.length := by
    simpa using (List.getElem?_eq_some_iff.1 hs).1
  cases h with
  | idle => cases hs'
  | @turn s s₁ outer hturn =>
    right
    rcases getElem?_reverse_cons.1 hs' with hs' | ⟨rfl, rfl⟩
    · refine ⟨s', getElem?_reverse_cons.2 (.inl hs'), .inr ⟨rfl, ?_⟩⟩
      intro hlevel
      exact absurd (Nat.succ.inj hlevel) (hbelow hs').ne
    · exact ⟨s, getElem?_reverse_cons.2 (.inr ⟨rfl, rfl⟩), .inl ⟨⟨outer, rfl, rfl⟩, hturn⟩⟩
  | @pushFunction _ firstBlock hi =>
    rcases getElem?_reverse_cons.1 hs' with hs' | ⟨rfl, rfl⟩
    · refine .inr ⟨s', hs', .inr ⟨rfl, ?_⟩⟩
      rw [hi]
      exact fun _ => rfl
    · exact .inl ⟨rfl, firstBlock, rfl⟩
  | @popFunction s outer l hi =>
    refine .inr ⟨s', getElem?_reverse_cons.2 (.inl hs'), .inr ⟨rfl, ?_⟩⟩
    rw [hi]
    exact fun _ => rfl

/-! ### Every open function -/

/-- Whether a function has on record the most slots that it has had in use and the parameters that
it has declared. The parameters have the first slots, in order. -/
structure Scope.Recorded (s : Scope) (past : Machine.Past) (m : Machine) (level : Nat) : Prop where
  count : IsGreatest (Machine.heights level past m) s.function.localCount
  arity : s.function.arity = (Machine.parameters level past).length
  parameters : ∀ k n, (Machine.parameters level past)[k]? = some n → s.bodySlot? n = some k

/-- Whether each block of a function but its body begins at the number of slots that were in use
when it was opened. -/
def Scope.Opened (s : Scope) (past : Machine.Past) (level : Nat) : Prop :=
  ∀ k n, k ≠ 0 → s.starts[k]? = some n → ∃ m₀ inherits,
    Machine.opening? past (s.function.firstBlock + k) = some (m₀, .pushBlock inherits) ∧
      m₀.builder.functionDepth = level + 1 ∧
      m₀.builder.functions.top?.map FunctionScope.nextLocal = some n

/-- What instructions preserve of an open function. -/
structure Scope.Settled (s : Scope) (past : Machine.Past) (m : Machine) (level : Nat) : Prop where
  stacked : Stacked s.blocks s.function.nextLocal
  recorded : s.Recorded past m level
  opened : s.Opened past level

namespace Scope

variable {past : Machine.Past} {m m' : Machine} {i : Instruction} {level : Nat} {s s' : Scope}

open Machine

lemma length_starts (s : Scope) : s.starts.length = s.blocks.length := by
  rw [starts, List.length_reverse, List.length_map]

/-- The blocks of a function were opened when the current instruction was still to come. -/
lemma Opened.opening? {k n : Nat} (h : s.Opened past level) (hk : k ≠ 0)
    (hn : s.starts[k]? = some n)
    (hblocks : s.function.firstBlock + s.blocks.length ≤ m.builder.blockDepth) :
    ∃ m₀ inherits,
      Machine.opening? ((m, i) :: past) (s.function.firstBlock + k) =
        some (m₀, .pushBlock inherits) ∧
      m₀.builder.functionDepth = level + 1 ∧
      m₀.builder.functions.top?.map FunctionScope.nextLocal = some n := by
  have hlt := (List.getElem?_eq_some_iff.1 hn).1
  rw [length_starts] at hlt
  rw [opening?_cons_of_lt (by omega)]
  exact h k n hk hn

/-- A new function. -/
lemma settled_fresh {firstBlock : Nat} (hlevel : level = m.builder.functionDepth)
    (hs' : m'.builder.scope? level = some ⟨{ firstBlock }, [{}]⟩) :
    Scope.Settled ⟨{ firstBlock }, [{}]⟩ ((m, i) :: past) m' level := by
  refine ⟨⟨⟨List.nodup_nil, rfl⟩, rfl, rfl⟩, ⟨?_, ?_, ?_⟩, ?_⟩
  · rw [heights_cons_of_le hlevel.ge hs']
    exact isGreatest_singleton
  · rw [Machine.parameters, since_cons_of_le hlevel.ge]
    rfl
  · intro k n hk
    rw [Machine.parameters, since_cons_of_le hlevel.ge] at hk
    cases hk
  · intro k n hk hn
    have hlt := (List.getElem?_eq_some_iff.1 hn).1
    exact absurd (Nat.lt_one_iff.1 hlt) hk

/-- A function around the innermost one, or one to which nothing happens. -/
lemma Settled.frame (h : s.Settled past m level) (hs : m.builder.scope? level = some s)
    (hs' : m'.builder.scope? level = some s) (hlevel : level < m.builder.functionDepth)
    (hi : level + 1 = m.builder.functionDepth → m.parameter? i = none)
    (hblocks : s.function.firstBlock + s.blocks.length ≤ m.builder.blockDepth) :
    s.Settled ((m, i) :: past) m' level := by
  have hparameters : Machine.parameters level ((m, i) :: past) = Machine.parameters level past := by
    rcases Nat.lt_or_eq_of_le hlevel with hlt | heq
    · exact parameters_cons_of_lt hlt
    · rw [parameters_cons_of_eq heq, hi heq]
      exact List.append_nil _
  refine ⟨h.stacked, ⟨?_, ?_, ?_⟩, fun k n hk hn => h.opened.opening? hk hn hblocks⟩
  · rw [heights_cons_of_lt hlevel hs', Set.insert_eq_of_mem (nextLocal_mem_heights hs)]
    exact h.recorded.count
  · rw [hparameters]
    exact h.recorded.arity
  · rw [hparameters]
    exact h.recorded.parameters

/-- The innermost function. -/
lemma Settled.turn (h : s.Settled past m level) (hturn : s.Turn m i s')
    (hs : m.builder.scope? level = some s) (hs' : m'.builder.scope? level = some s')
    (hlevel : level + 1 = m.builder.functionDepth)
    (hblocks : s.function.firstBlock + s.blocks.length = m.builder.blockDepth)
    (htop : m.builder.functions.top? = some s.function) :
    s'.Settled ((m, i) :: past) m' level := by
  obtain ⟨hcount, harity, hparameters⟩ := h.recorded
  refine ⟨hturn.stacked h.stacked, ⟨?_, ?_, ?_⟩, ?_⟩
  · have hle := hcount.2 (nextLocal_mem_heights hs)
    rw [heights_cons_of_lt (by omega) hs', hturn.localCount h.stacked hle]
    exact hcount.insert _
  · rw [parameters_cons_of_eq hlevel, hturn.arity, harity, List.length_append]
  · intro k n hk
    rw [parameters_cons_of_eq hlevel] at hk
    cases hi : m.parameter? i with
    | none =>
      rw [hi, Option.toList_none, List.append_nil] at hk
      exact hturn.bodySlot? (hparameters k n hk)
    | some p =>
      rw [hi, Option.toList_some, getElem?_concat] at hk
      rcases hk with hk | ⟨rfl, rfl⟩
      · exact hturn.bodySlot? (hparameters k n hk)
      · exact harity ▸ hturn.bodySlot?_of_parameter hi
  · intro k n hk hn
    rw [hturn.firstBlock]
    rcases hturn.starts hn with hn | ⟨rfl, rfl, inherits, rfl⟩
    · exact h.opened.opening? hk hn hblocks.le
    · refine ⟨m, inherits, opening?_cons_of_le hblocks.ge, hlevel.symm, ?_⟩
      rw [htop]
      rfl

end Scope

lemma Nested.length_le {ss : List Scope} (h : Nested ss) {s : Scope} (hs : s ∈ ss) :
    s.function.firstBlock + s.blocks.length ≤ (ss.flatMap Scope.blocks).length := by
  induction ss with
  | nil => cases hs
  | cons s' outer ih =>
    obtain ⟨hfirst, -, houter⟩ := h
    rw [List.flatMap_cons, List.length_append]
    rcases List.mem_cons.1 hs with rfl | hs
    · omega
    · have := ih houter hs
      omega

lemma Nested.founded {ss : List Scope} (h : Nested ss) {s : Scope} (hs : s ∈ ss) :
    Founded s.blocks := by
  induction ss with
  | nil => cases hs
  | cons s' outer ih =>
    rcases List.mem_cons.1 hs with rfl | hs
    · exact h.2.1
    · exact ih h.2.2 hs

lemma Builder.scope?_eq {b : Builder} {ss : List Scope} (h : b.view.Arranged ss) (level : Nat) :
    b.scope? level = ss.reverse[level]? := by
  rw [Builder.scope?, Builder.scopes_eq h]

namespace Machine

variable {past : Past} {m : Machine}

/-- Along a history every open function is settled. -/
theorem History.exists_settled (h : History past m) :
    ∃ ss, m.builder.view.Arranged ss ∧
      ∀ (level : Nat) (s : Scope), ss.reverse[level]? = some s → s.Settled past m level := by
  induction h with
  | start => exact ⟨[], ⟨rfl, rfl, trivial⟩, nofun⟩
  | @step past m i h hi ih =>
    obtain ⟨ss, harranged, hsettled⟩ := ih
    obtain ⟨ss', harranged', hchange⟩ := exists_change harranged hi
    refine ⟨ss', harranged', ?_⟩
    intro level s' hs'
    have hdepth := Builder.functionDepth_eq harranged
    have hscope' := (Builder.scope?_eq harranged' level).trans hs'
    -- The invariant is carried on for a new function, the changed one and those that stay.
    rcases hchange.scope_cases hs' with ⟨hlevel, firstBlock, rfl⟩ | ⟨s, hs, hcases⟩
    · exact Scope.settled_fresh (hlevel.trans hdepth.symm) hscope'
    · have hscope := (Builder.scope?_eq harranged level).trans hs
      have hblockDepth := Builder.blockDepth_eq harranged
      rcases hcases with ⟨⟨outer, rfl, rfl⟩, hturn⟩ | ⟨rfl, hi⟩
      · refine (hsettled _ s hs).turn hturn hscope hscope' hdepth.symm ?_ ?_
        · obtain ⟨hfirst, -, -⟩ := harranged.nested
          rw [hblockDepth, hfirst, List.flatMap_cons, List.length_append, Nat.add_comm]
        · have hlive : m.builder.functions.live = _ := harranged.functions
          rw [Pool.top?, hlive]
          rfl
      · have hlevel : level < m.builder.functionDepth := by
          rw [hdepth]
          simpa using (List.getElem?_eq_some_iff.1 hs).1
        refine (hsettled level s' hs).frame hscope hscope' hlevel ?_ ?_
        · rwa [hdepth]
        · rw [hblockDepth]
          exact harranged.nested.length_le (List.mem_reverse.1 (List.mem_of_getElem? hs))

/-- Whether the end of the innermost block leaves in use the slots that were in use when that block
was opened, in the same function. -/
def Restores (past : Past) (m : Machine) (l : Location) : Prop :=
  ∃ m₀ inherits, opening? past (m.builder.blockDepth - 1) = some (m₀, .pushBlock inherits) ∧
    m₀.builder.functionDepth = m.builder.functionDepth ∧
    (m.step (.popBlock l)).1.builder.functions.top?.map FunctionScope.nextLocal =
      m₀.builder.functions.top?.map FunctionScope.nextLocal

end Machine

/-- What holds of an open function at any time of a history. -/
structure Scope.Orderly (s : Scope) (past : Machine.Past) (m : Machine) (level : Nat) : Prop
    extends s.Recorded past m level where
  held : ∀ i < s.function.nextLocal, ∃! p : Nat × String, BlockScope.Hold s.blocks p.1 p.2 i
  used : ∀ k n i, BlockScope.Hold s.blocks k n i → i < s.function.nextLocal
  names : ∀ b ∈ s.blocks, (b.locals.map Prod.fst).Nodup
  next : ∃ b outer, s.blocks = b :: outer ∧
    s.function.nextLocal = b.firstLocal + b.locals.length

namespace Machine

/-- What holds at any time of a history: of every open function, of the end of a block, of the
functions around the innermost one, and of instructions that fail. -/
structure Orderly (m : Machine) (past : Past) : Prop where
  functions : m.builder.functions.live = m.builder.scopes.map Scope.function
  blocks : m.builder.blocks.live = m.builder.scopes.flatMap Scope.blocks
  scopes : ∀ (level : Nat) (s : Scope), m.builder.scope? level = some s → s.Orderly past m level
  restores : ∀ l, m.Allows (.popBlock l) → m.Restores past l
  frames : ∀ i, m.Allows i → m.builder.scopes.tail <:+ (m.step i).1.builder.scopes
  failures : ∀ i e, (m.step i).2 = .error e → (m.step i).1.builder = m.builder

lemma restores_of_opened {past : Past} {m : Machine} {f : FunctionScope} {b : BlockScope}
    {bs : List BlockScope} {outer : List Scope}
    (h : m.builder.view.Arranged (⟨f, b :: bs⟩ :: outer))
    (hs : Scope.Opened ⟨f, b :: bs⟩ past outer.length) (hbs : bs ≠ []) (l : Location) :
    m.Restores past l := by
  have hstart : (Scope.starts ⟨f, b :: bs⟩)[bs.length]? = some b.firstLocal :=
    getElem?_reverse_cons.2 (.inr ⟨(List.length_map _).symm, rfl⟩)
  obtain ⟨m₀, inherits, hopening, hdepth, htop⟩ := hs _ _ (mt List.length_eq_zero_iff.1 hbs) hstart
  have hbelow : m.builder.blockDepth - 1 = f.firstBlock + bs.length := by
    have hfirst : f.firstBlock = (outer.flatMap Scope.blocks).length := h.nested.1
    rw [Builder.blockDepth_eq h, hfirst]
    simp [Nat.add_comm]
  have hafter : (m.step (.popBlock l)).1.builder.functions.top?.map FunctionScope.nextLocal =
      some b.firstLocal := by
    have hview := congrArg View.functions (Builder.popBlock_eq_of_cons h.blocks l).1
    rw [h.functions] at hview
    have hlive : (m.step (.popBlock l)).1.builder.functions.live = _ := hview
    rw [Pool.top?, hlive]
    rfl
  refine ⟨m₀, inherits, ?_, ?_, hafter.trans htop.symm⟩
  · rw [hbelow]
    exact hopening
  · rw [hdepth, Builder.functionDepth_eq h]
    rfl

lemma restores_of_allows {past : Past} {m : Machine} {ss : List Scope}
    (h : m.builder.view.Arranged ss)
    (hss : ∀ (level : Nat) (s : Scope), ss.reverse[level]? = some s → s.Opened past level)
    {l : Location} (hl : m.Allows (.popBlock l)) : m.Restores past l := by
  cases ss with
  | nil => exact ((allows_nil h).1 hl).elim
  | cons s outer =>
    have hpermits : 1 < s.blocks.length := (allows_cons h).1 hl
    have hopened := hss outer.length s (getElem?_reverse_cons.2 (.inr ⟨rfl, rfl⟩))
    obtain ⟨f, bs⟩ := s
    obtain ⟨b, bs, rfl⟩ := h.nested.2.1.exists_cons
    refine restores_of_opened h hopened ?_ l
    rintro rfl
    exact absurd hpermits (Nat.lt_irrefl 1)

end Machine

lemma Scope.Settled.orderly_of_founded {s : Scope} {past : Machine.Past} {m : Machine} {level : Nat}
    (h : s.Settled past m level) (hs : Founded s.blocks) : s.Orderly past m level := by
  obtain ⟨b, outer, hb⟩ := hs.exists_cons
  refine ⟨h.recorded, ?_, ?_, h.stacked.names, ?_⟩
  · intro i hi
    exact h.stacked.existsUnique hi
  · intro k n i hi
    exact h.stacked.lt hi
  · have hnext := h.stacked
    rw [hb] at hnext
    exact ⟨b, outer, hb, hnext.2.1⟩

/-- Every history is orderly: locals have the slots that are in use, each its own, the end of a
block gives its slots back, records and parameters are those of the history, and what is around the
innermost function stays as it is. -/
theorem Machine.History.orderly {past : Machine.Past} {m : Machine} (h : Machine.History past m) :
    m.Orderly past := by
  obtain ⟨ss, harranged, hsettled⟩ := h.exists_settled
  have hscopes := Builder.scopes_eq harranged
  refine ⟨?_, ?_, ?_, ?_, ?_, fun i e he => Machine.builder_of_error he⟩
  · rw [hscopes]
    exact harranged.functions
  · rw [hscopes]
    exact harranged.blocks
  · intro level s hs
    rw [Builder.scope?_eq harranged] at hs
    have hmem : s ∈ ss := List.mem_reverse.1 (List.mem_of_getElem? hs)
    exact (hsettled level s hs).orderly_of_founded (harranged.nested.founded hmem)
  · intro l hl
    exact Machine.restores_of_allows harranged (fun level s hs => (hsettled level s hs).opened) hl
  · intro i hi
    obtain ⟨ss', harranged', hchange⟩ := Machine.exists_change harranged hi
    rw [hscopes, Builder.scopes_eq harranged']
    exact hchange.tail_suffix

/-- A function with a parameter, a closed block and an open one, and inside it a function in which a
name is declared twice. -/
theorem Machine.History.orderly_nested : ∃ past m,
    past.map Prod.snd =
      [.declare "z" .unknown, .declare "z" .unknown, .pushFunction, .declare "y" .unknown,
        .pushBlock true, .popBlock .unknown, .declare "x" .unknown, .pushBlock false,
        .parameter "x" .unknown, .pushFunction] ∧
    Machine.History past m ∧ m.Orderly past := by
  have h₁ := (History.start).step (i := .pushFunction) trivial
  have h₂ := h₁.step (i := .parameter "x" .unknown) ⟨rfl, rfl⟩
  have h₃ := h₂.step (i := .pushBlock false) trivial
  have h₄ := h₃.step (i := .declare "x" .unknown) trivial
  have h₅ := h₄.step (i := .popBlock .unknown) Nat.one_lt_two
  have h₆ := h₅.step (i := .pushBlock true) trivial
  have h₇ := h₆.step (i := .declare "y" .unknown) trivial
  have h₈ := h₇.step (i := .pushFunction) trivial
  have h₉ := h₈.step (i := .declare "z" .unknown) trivial
  have h := h₉.step (i := .declare "z" .unknown) trivial
  exact ⟨_, _, rfl, h, h.orderly⟩

end ScriptGraph
