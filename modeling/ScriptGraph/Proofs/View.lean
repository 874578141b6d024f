import ScriptGraph.Proofs.Lowering
import ScriptGraph.Proofs.Resolution.Frames

/-!
# What a builder shows

The view of a builder is what it holds apart from the records that wait to be used again. It matches
a frame if the open blocks of the current function hold the locals of the frame. Each operation of
the builder is described by what it does to the view.
-/

namespace ScriptGraph

/-! ### Statements of blocks -/

namespace BlockScope

/-- The blocks after some statements. -/
def appendAll (blocks : List BlockScope) (terms : List Term) : List BlockScope :=
  terms.foldl append blocks

@[simp] lemma appendAll_nil (bs : List BlockScope) : appendAll bs [] = bs := rfl

@[simp] lemma appendAll_cons (bs : List BlockScope) (t : Term) (ts : List Term) :
    appendAll bs (t :: ts) = appendAll (append bs t) ts := rfl

lemma appendAll_append (bs : List BlockScope) (ts us : List Term) :
    appendAll bs (ts ++ us) = appendAll (appendAll bs ts) us := by
  rw [appendAll, List.foldl_append, ← appendAll, ← appendAll]

/-- The blocks with the locals of the innermost replaced. -/
def setLocals (locals : List (String × Nat)) : List BlockScope → List BlockScope
  | [] => []
  | b :: outer => { b with locals } :: outer

lemma locals_setLocals (ls : List (String × Nat)) {bs : List BlockScope} (hbs : bs ≠ []) :
    (setLocals ls bs).map locals = ls :: (bs.map locals).tail := by
  cases bs with
  | nil => exact absurd rfl hbs
  | cons b outer => rfl

@[simp] lemma setLocals_setLocals (ls ls' : List (String × Nat)) (bs : List BlockScope) :
    setLocals ls (setLocals ls' bs) = setLocals ls bs := by
  cases bs <;> rfl

lemma append_setLocals (ls : List (String × Nat)) (bs : List BlockScope) (t : Term) :
    append (setLocals ls bs) t = setLocals ls (append bs t) := by
  cases bs with
  | nil => rfl
  | cons b outer =>
    simp only [setLocals, append]
    split
    · rfl
    · split <;> rfl

lemma appendAll_setLocals (ls : List (String × Nat)) (bs : List BlockScope) (ts : List Term) :
    appendAll (setLocals ls bs) ts = setLocals ls (appendAll bs ts) := by
  induction ts generalizing bs with
  | nil => rfl
  | cons t ts ih => rw [appendAll_cons, append_setLocals, ih, appendAll_cons]

@[simp] lemma locals_append (bs : List BlockScope) (t : Term) :
    (append bs t).map locals = bs.map locals := by
  induction bs generalizing t with
  | nil => rfl
  | cons b outer ih =>
    simp only [append]
    split
    · rfl
    · split
      · simp [ih]
      · rfl

@[simp] lemma locals_appendAll (bs : List BlockScope) (ts : List Term) :
    (appendAll bs ts).map locals = bs.map locals := by
  induction ts generalizing bs with
  | nil => rfl
  | cons t ts ih => rw [appendAll_cons, ih, locals_append]

lemma appendAll_inheriting_result (b : BlockScope) (outer : List BlockScope) (p : Term)
    (ts : List Term) (hb : b.inherits = true) :
    appendAll ({ b with result := some p } :: outer) ts =
      { b with result := (p :: ts).getLast? } :: appendAll outer (p :: ts).dropLast := by
  induction ts generalizing p outer with
  | nil => rfl
  | cons t ts ih =>
    rw [appendAll_cons, append]
    dsimp only
    rw [if_pos hb, ih]
    rfl

/-- An inheriting block keeps the last statement and hands the others to the block around it. -/
lemma appendAll_inheriting (b : BlockScope) (outer : List BlockScope) (ts : List Term)
    (hb : b.inherits = true) (hr : b.result = none) :
    appendAll (b :: outer) ts =
      { b with result := ts.getLast? } :: appendAll outer ts.dropLast := by
  cases ts with
  | nil =>
    obtain ⟨_, _, _, _, _⟩ := b
    cases hr
    rfl
  | cons t ts =>
    rw [appendAll_cons, append, hr]
    exact appendAll_inheriting_result b outer t ts hb

lemma appendAll_owning_result (b : BlockScope) (outer : List BlockScope) (p : Term) (ts : List Term)
    (hb : b.inherits = false) :
    appendAll ({ b with result := some p } :: outer) ts =
      { b with result := (p :: ts).getLast?,
               statements := (p :: ts).dropLast.reverse ++ b.statements } :: outer := by
  induction ts generalizing p b with
  | nil => rfl
  | cons t ts ih =>
    have hstep : append ({ b with result := some p } :: outer) t =
        { b with result := some t, statements := p :: b.statements } :: outer := by
      simp [append, hb]
    rw [appendAll_cons, hstep]
    refine (ih { b with statements := p :: b.statements } t hb).trans ?_
    simp

/-- A block that does not inherit keeps all statements. -/
lemma appendAll_owning (b : BlockScope) (outer : List BlockScope) (ts : List Term)
    (hb : b.inherits = false) (hr : b.result = none) (hs : b.statements = []) :
    appendAll (b :: outer) ts =
      { b with result := ts.getLast?, statements := ts.dropLast.reverse } :: outer := by
  cases ts with
  | nil =>
    obtain ⟨_, _, _, _, _⟩ := b
    cases hr
    cases hs
    rfl
  | cons t ts =>
    rw [appendAll_cons, append, hr]
    simp only
    rw [appendAll_owning_result b outer t ts hb, hs, List.append_nil]

lemma value_owning (b : BlockScope) (ts : List Term) (l : Location) (hb : b.inherits = false) :
    value { b with result := ts.getLast?, statements := ts.dropLast.reverse } l =
      closeBody ts l := by
  simp only [value, hb, Bool.false_eq_true, if_false, closeBody, List.filter_reverse,
    List.reverse_reverse]
  cases ts.dropLast.filter fun t => !t.isPure <;> rfl

lemma find?_eq (bs : List BlockScope) (n : String) :
    find? bs n = (bs.map locals).findSome? fun ls => ls.lookup n := by
  rw [find?, List.findSome?_map]
  rfl

end BlockScope

/-! ### Views -/

/-- What a builder holds: its open functions and blocks, innermost first, and its graph. -/
structure View where
  functions : List FunctionScope
  blocks : List BlockScope
  graph : Graph

/-- The view of a builder. -/
def Builder.view (b : Builder) : View := ⟨b.functions.live, b.blocks.live, b.graph⟩

/-- The slots of the locals of a block. -/
def slotsOf (block : List (String × Local)) : List (String × Nat) :=
  block.map fun p => (p.1, p.2.slot)

namespace View

/-- The view after code that leads to a frame, appends some statements and leads to some functions
of the graph. -/
def after (v : View) (f : Frame) (terms : List Term) (fs : List Function) : View where
  functions := v.functions.modifyHead fun s => { s with nextLocal := f.next, localCount := f.count }
  blocks := BlockScope.setLocals (slotsOf (f.blocks.headD [])) (BlockScope.appendAll v.blocks terms)
  graph := { v.graph with functions := fs }

@[simp] lemma functions_graph_after (v : View) (f : Frame) (ts : List Term) (fs : List Function) :
    (v.after f ts fs).graph.functions = fs := rfl

@[simp] lemma after_after (v : View) (f f' : Frame) (ts ts' : List Term) (fs fs' : List Function) :
    (v.after f ts fs).after f' ts' fs' = v.after f' (ts ++ ts') fs' := by
  simp only [after, BlockScope.appendAll_append, BlockScope.appendAll_setLocals,
    BlockScope.setLocals_setLocals]
  cases v.functions <;> rfl

lemma append_after (v : View) (f : Frame) (ts : List Term) (fs : List Function) (t : Term) :
    { v.after f ts fs with blocks := BlockScope.append (v.after f ts fs).blocks t } =
      v.after f (ts ++ [t]) fs := by
  simp [after, BlockScope.append_setLocals, BlockScope.appendAll_append]

/-- Whether the current function of a view is at the place that a frame describes. -/
structure Matches (v : View) (f : Frame) : Prop where
  function : ∃ s outer, v.functions = s :: outer ∧ s.nextLocal = f.next ∧ s.localCount = f.count ∧
    ∃ hidden, v.blocks.map BlockScope.locals = f.blocks.map slotsOf ++ hidden ∧
      hidden.length = s.firstBlock
  block : f.blocks ≠ []

/-- The innermost block of a view that matches a frame holds the locals of the frame's. -/
lemma Matches.exists_block {v : View} {f : Frame} (h : v.Matches f) :
    ∃ b outer, v.blocks = b :: outer ∧ b.locals = slotsOf (f.blocks.headD []) := by
  obtain ⟨s, fs, -, -, -, hidden, hlocals, -⟩ := h.function
  obtain ⟨x, xs, hx⟩ := List.exists_cons_of_ne_nil h.block
  rw [hx, List.map_cons, List.cons_append, List.map_eq_cons_iff] at hlocals
  obtain ⟨b, outer, hb, hx', -⟩ := hlocals
  exact ⟨b, outer, hb, by rw [hx', hx]; rfl⟩

lemma Matches.after {v : View} {f f' : Frame} (h : v.Matches f) (hf : f.Follows f')
    (ts : List Term) (fs : List Function) : (v.after f' ts fs).Matches f' := by
  obtain ⟨s, outer, hs, -, -, hidden, hlocals, hlen⟩ := h.function
  obtain ⟨b, bs, hb, -⟩ := h.exists_block
  have hf' := hf.filled h.block
  obtain ⟨x, xs, hx⟩ := List.exists_cons_of_ne_nil h.block
  obtain ⟨x', xs', hx'⟩ := List.exists_cons_of_ne_nil hf'
  have hxs : xs' = xs := by
    have := hf.outer
    rwa [hx, hx'] at this
  have hne : BlockScope.appendAll v.blocks ts ≠ [] := by
    intro hnil
    have := BlockScope.locals_appendAll v.blocks ts
    rw [hnil, hb] at this
    cases this
  refine ⟨⟨{ s with nextLocal := f'.next, localCount := f'.count }, outer, ?_, rfl, rfl, hidden,
    ?_, hlen⟩, hf'⟩
  · simp [View.after, hs]
  · rw [View.after, BlockScope.locals_setLocals _ hne, BlockScope.locals_appendAll, hlocals, hx,
      hx', hxs]
    rfl

/-- A view is as after code that does nothing. -/
lemma Matches.after_self {v : View} {f : Frame} (h : v.Matches f) (fs : List Function) :
    v.after f [] fs = { v with graph := { v.graph with functions := fs } } := by
  obtain ⟨s, outer, hs, hnext, hcount, -⟩ := h.function
  obtain ⟨b, bs, hb, hlocals⟩ := h.exists_block
  simp only [View.after, BlockScope.appendAll_nil, hs, hb, BlockScope.setLocals, ← hlocals,
    List.modifyHead_cons, ← hnext, ← hcount]

/-- The view inside a new block. -/
def pushBlock (v : View) (inherits : Bool) (firstLocal : Nat) : View :=
  { v with blocks := { inherits, firstLocal } :: v.blocks }

/-- The view inside a new function. -/
def pushFunction (v : View) : View :=
  { v with
    functions := { firstBlock := v.blocks.length } :: v.functions
    blocks := {} :: v.blocks }

/-- The view with more parameters of the current function. -/
def addArity (v : View) (n : Nat) : View :=
  { v with functions := v.functions.modifyHead fun s => { s with arity := s.arity + n } }

@[simp] lemma after_addArity (v : View) (n : Nat) (f : Frame) (ts : List Term)
    (fs : List Function) : (v.addArity n).after f ts fs = (v.after f ts fs).addArity n := by
  simp only [View.after, addArity]
  cases v.functions <;> rfl

@[simp] lemma addArity_zero (v : View) : v.addArity 0 = v := by
  obtain ⟨_ | _, _, _⟩ := v <;> rfl

@[simp] lemma addArity_addArity (v : View) (m n : Nat) :
    (v.addArity m).addArity n = v.addArity (m + n) := by
  simp only [addArity]
  cases v.functions <;> simp [Nat.add_assoc]

lemma Matches.addArity {v : View} {f : Frame} (h : v.Matches f) (n : Nat) :
    (v.addArity n).Matches f := by
  obtain ⟨s, outer, hs, hnext, hcount, hblocks⟩ := h.function
  refine ⟨⟨{ s with arity := s.arity + n }, outer, ?_, hnext, hcount, hblocks⟩, h.block⟩
  simp [View.addArity, hs]

lemma Matches.pushBlock {v : View} {f : Frame} (h : v.Matches f) (inherits : Bool)
    (firstLocal : Nat) : (v.pushBlock inherits firstLocal).Matches f.enter := by
  obtain ⟨s, outer, hs, hnext, hcount, hidden, hlocals, hlen⟩ := h.function
  refine ⟨⟨s, outer, hs, hnext, hcount, hidden, ?_, hlen⟩, by simp [Frame.enter]⟩
  simp [View.pushBlock, Frame.enter, hlocals, slotsOf]

lemma matches_pushFunction (v : View) : v.pushFunction.Matches Frame.initial := by
  refine ⟨⟨{ firstBlock := v.blocks.length }, v.functions, rfl, rfl, rfl,
    v.blocks.map BlockScope.locals, ?_, by simp⟩, by simp [Frame.initial]⟩
  simp [pushFunction, Frame.initial, slotsOf]

end View

/-! ### Operations of the builder -/

namespace Builder

lemma view_modifyTop (p : Pool α) (g : α → α) : (p.modifyTop g).live = p.live.modifyHead g := by
  unfold Pool.modifyTop
  cases h : p.live <;> simp [h]

lemma lookup_slotsOf (b : List (String × Local)) (n : String) :
    (slotsOf b).lookup n = (b.lookup n).map Local.slot := by
  induction b with
  | nil => rfl
  | cons p b ih =>
    obtain ⟨m, x⟩ := p
    rw [slotsOf] at ih
    simp only [slotsOf, List.map_cons, List.lookup_cons, ih]
    cases n == m <;> rfl

variable {b : Builder} {f : Frame}

/-- The visible blocks of a builder hold the locals of a frame that it matches. -/
lemma locals_visibleBlocks (h : b.view.Matches f) :
    b.visibleBlocks.map BlockScope.locals = f.blocks.map slotsOf := by
  obtain ⟨s, outer, hs, -, -, hidden, hlocals, hlen⟩ := h.function
  have htop : b.functions.top? = some s := by
    have hs' : b.functions.live = s :: outer := hs
    rw [Pool.top?, hs']
    rfl
  have hl : b.blocks.live.map BlockScope.locals = f.blocks.map slotsOf ++ hidden := hlocals
  have hdepth : b.blocks.depth - s.firstBlock = (f.blocks.map slotsOf).length := by
    have := congrArg List.length hl
    simp only [List.length_map, List.length_append] at this
    rw [Pool.depth, List.length_map]
    omega
  rw [visibleBlocks, htop]
  simp only
  rw [List.map_take, hl, hdepth, List.take_left]

/-- A name denotes in a builder what it denotes in a frame that it matches. -/
lemma get_eq (h : b.view.Matches f) (n : String) (l : Location) :
    b.get n l = (f.denote n).get l := by
  have hlookup : b.lookup? n = (f.find? n).map Local.slot := by
    rw [lookup?, BlockScope.find?_eq, locals_visibleBlocks h, Frame.find?, List.findSome?_map,
      List.map_findSome?]
    congr 1
    funext ls
    simp [lookup_slotsOf]
  rw [get, Frame.denote, hlookup]
  cases f.find? n <;> rfl

/-- A declaration succeeds in a builder if it does in a frame that it matches. -/
lemma declare_rel (h : b.view.Matches f) (n : String) (l : Location) :
    Option.Rel
      (fun r f' => r.1.view = b.view.after f' [] b.graph.functions ∧
        r.2 = .getLocal f.fresh.slot (some l))
      (b.declare n l).toOption (f.declare? n) := by
  obtain ⟨s, outer, hs, hnext, hcount, -⟩ := h.function
  obtain ⟨block, blocks, hblocks, hlocals⟩ := h.exists_block
  obtain ⟨x, xs, hx⟩ := List.exists_cons_of_ne_nil h.block
  have hs' : b.functions.live = s :: outer := hs
  have hb' : b.blocks.live = block :: blocks := hblocks
  have hlookup : (block.locals.lookup n).isSome = (x.lookup n).isSome := by
    rw [hlocals, lookup_slotsOf, hx]
    simp
  simp only [declare, Pool.top?, hs', hb', List.head?_cons, hlookup, Frame.declare?, hx]
  cases (x.lookup n).isSome with
  | true => exact .none
  | false =>
    refine .some ⟨?_, by rw [hnext]; rfl⟩
    simp only [view, View.after, view_modifyTop, hs', hb', BlockScope.appendAll_nil,
      List.modifyHead_cons, BlockScope.setLocals, hnext, hcount, List.headD_cons]
    rw [hlocals, hx]
    rfl

lemma rel_toOption {R : α → β → Prop} {x : Except ε α} {y : Option β}
    (h : Option.Rel R x.toOption y) :
    (∃ e, x = .error e ∧ y = none) ∨ ∃ a b, x = .ok a ∧ y = some b ∧ R a b := by
  cases x with
  | error e =>
    cases h
    exact .inl ⟨e, rfl, rfl⟩
  | ok a =>
    cases h with
    | some hab => exact .inr ⟨a, _, rfl, rfl, hab⟩

/-- A parameter is declared and counted. -/
lemma addParameter_rel (h : b.view.Matches f) (n : String) (l : Location) :
    Option.Rel (fun b' f' => b'.view = (b.view.after f' [] b.graph.functions).addArity 1)
      (b.addParameter n l).toOption (f.declare? n) := by
  rw [addParameter]
  rcases rel_toOption (declare_rel h n l) with ⟨e, he, hf⟩ | ⟨r, f', hr, hf, hview, -⟩
  · rw [he, hf]
    exact .none
  · rw [hr, hf]
    refine .some ?_
    rw [← hview]
    simp [view, view_modifyTop, View.addArity]

lemma view_addStatement (b : Builder) (t : Term) :
    (b.addStatement t).view = { b.view with blocks := BlockScope.append b.view.blocks t } := rfl

lemma view_pushBlock (h : b.view.Matches f) (inherits : Bool) :
    (b.pushBlock inherits).view = b.view.pushBlock inherits f.next := by
  obtain ⟨s, outer, hs, hnext, -⟩ := h.function
  have hs' : b.functions.live = s :: outer := hs
  simp [view, pushBlock, View.pushBlock, BlockScope.reset, Pool.top?, hs', hnext]

lemma view_pushFunction (b : Builder) : b.pushFunction.view = b.view.pushFunction := by
  simp [view, pushFunction, View.pushFunction, BlockScope.reset, FunctionScope.reset, Pool.depth]

/-- The end of a block frees its slots. -/
lemma popBlock_eq_of_cons {block : BlockScope} {blocks : List BlockScope}
    (hb : b.view.blocks = block :: blocks) (l : Location) :
    (b.popBlock l).1.view =
        { b.view with
          functions := b.view.functions.modifyHead fun s => { s with nextLocal := block.firstLocal }
          blocks := blocks } ∧
      (b.popBlock l).2 = block.value l := by
  have hb' : b.blocks.live = block :: blocks := hb
  simp [popBlock, Pool.top?, hb', view, view_modifyTop]

/-- The end of a `do` block hands on its last statement. -/
lemma popBlock_eq {v : View} {inner : Frame} {ts : List Term} {fs : List Function} (l : Location)
    (hv : v.Matches f) (hb : b.view = (v.pushBlock true f.next).after inner ts fs) :
    (b.popBlock l).1.view = v.after (f.leave inner) ts.dropLast fs ∧
      (b.popBlock l).2 = ts.getLast?.getD (.undefined (some l)) := by
  have hblocks : b.view.blocks = _ := congrArg View.blocks hb
  rw [View.after, View.pushBlock, BlockScope.appendAll_inheriting _ _ _ rfl rfl,
    BlockScope.setLocals] at hblocks
  obtain ⟨hview, hvalue⟩ := popBlock_eq_of_cons hblocks l
  refine ⟨?_, hvalue⟩
  obtain ⟨block, blocks, hcons, hlocals⟩ := hv.exists_block
  have hset : BlockScope.setLocals (slotsOf (f.blocks.headD [])) v.blocks = v.blocks := by
    rw [hcons, ← hlocals]
    rfl
  rw [hview, hb]
  simp only [View.after, View.pushBlock, Frame.leave]
  rw [← BlockScope.appendAll_setLocals, hset]
  cases v.functions <;> rfl

/-- The end of a function adds it to the graph. -/
lemma popFunction_eq {v : View} {inner : Frame} {n : Nat} {ts : List Term} {fs : List Function}
    (l : Location) (hb : b.view = (v.pushFunction.after inner ts fs).addArity n) :
    let g : Graph := { v.graph with functions := fs ++ [⟨inner.count, n, closeBody ts l⟩] }
    if v.functions = [] then (b.popFunction l).1.view = { v with graph := addEntry g }
    else (b.popFunction l).1.view = { v with graph := g } ∧
      (b.popFunction l).2 = .getFunction fs.length (some l) := by
  intro g
  have hblocks : b.view.blocks = _ := congrArg View.blocks hb
  rw [View.addArity, View.after, View.pushFunction, BlockScope.appendAll_owning _ _ _ rfl rfl rfl,
    BlockScope.setLocals] at hblocks
  obtain ⟨hview, hvalue⟩ := popBlock_eq_of_cons hblocks l
  have hvalue' : (b.popBlock l).2 = closeBody ts l := by
    rw [hvalue, ← BlockScope.value_owning { locals := _ } ts l rfl]
  rw [hb] at hview
  have hfunctions : (b.popBlock l).1.functions.live =
      { firstBlock := v.blocks.length, nextLocal := 0, localCount := inner.count, arity := n } ::
        v.functions := by
    have := congrArg View.functions hview
    simpa [view, View.addArity, View.after, View.pushFunction] using this
  have hrest : (b.popBlock l).1.blocks.live = v.blocks := congrArg View.blocks hview
  have hgraph : (b.popBlock l).1.graph = { v.graph with functions := fs } :=
    congrArg View.graph hview
  simp only [popFunction, Pool.top?, hfunctions, List.head?_cons, Pool.depth, Pool.live_pop,
    List.tail_cons, hgraph, hvalue', addFunction]
  by_cases hv : v.functions = []
  · simp [hv, view, hrest, g, hfunctions]
  · simp [hv, view, hrest, g, hfunctions, Graph.size]

end Builder

end ScriptGraph
