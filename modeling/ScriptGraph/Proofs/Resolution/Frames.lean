import Mathlib.Data.List.Nodup
import Mathlib.Data.Nat.Basic
import ScriptGraph.Proofs.Resolution

/-!
# Frames along a function

Code changes only the innermost block of its frame, and there it adds what it declares. So code can
be resolved exactly if no block declares a name twice. The locals that are visible at a place hold
the slots below the next free one, each of them one slot, and the later declared one the higher.
-/

namespace ScriptGraph

namespace Frame

/-- The names that the innermost block declares, the latest first. -/
def names (f : Frame) : List String := (f.blocks.headD []).map Prod.fst

@[simp] lemma names_initial : initial.names = [] := rfl

@[simp] lemma names_enter (f : Frame) : f.enter.names = [] := rfl

@[simp] lemma names_leave (f inner : Frame) : (f.leave inner).names = f.names := rfl

lemma declare?_eq_some {f f' : Frame} {n : String} :
    f.declare? n = some f' ↔
      ∃ b outer, f.blocks = b :: outer ∧ n ∉ f.names ∧
        f' =
          ⟨((n, f.fresh) :: b) :: outer, f.next + 1, max f.count (f.next + 1), f.declared + 1⟩ := by
  rw [declare?]
  cases h : f.blocks with
  | nil => simp
  | cons b outer =>
    have hn : (b.lookup n).isSome ↔ n ∈ f.names := by
      simp [names, h]
    by_cases hmem : n ∈ f.names
    · simp [hmem, hn]
    · simp only [hn, hmem, if_false, List.cons.injEq, not_false_eq_true, true_and,
        Option.some.injEq]
      constructor
      · rintro rfl
        exact ⟨b, outer, ⟨rfl, rfl⟩, rfl⟩
      · rintro ⟨_, _, ⟨rfl, rfl⟩, rfl⟩
        rfl

/-- The visible locals, the latest first. -/
def locals (f : Frame) : List Local := f.blocks.flatten.map Prod.snd

@[simp] lemma locals_enter (f : Frame) : f.enter.locals = f.locals := rfl

@[simp] lemma locals_leave (f inner : Frame) : (f.leave inner).locals = f.locals := rfl

lemma locals_declare? {f f' : Frame} {n : String} (h : f.declare? n = some f') :
    f'.locals = f.fresh :: f.locals := by
  obtain ⟨b, outer, hb, -, rfl⟩ := declare?_eq_some.1 h
  simp [locals, hb]

lemma mem_locals_of_find? {f : Frame} {n : String} {x : Local} (h : f.find? n = some x) :
    x ∈ f.locals := by
  obtain ⟨b, hb, hx⟩ := List.exists_of_findSome?_eq_some h
  obtain ⟨p, hp, hn⟩ : ∃ p ∈ b, p.2 = x := by
    obtain ⟨l₁, l₂, rfl, -⟩ := List.lookup_eq_some_iff.1 hx
    exact ⟨(n, x), by simp, rfl⟩
  exact List.mem_map.2 ⟨p, List.mem_flatten.2 ⟨b, hb, hp⟩, hn⟩

lemma mem_locals_of_denote {f : Frame} {n : String} {x : Local} (h : f.denote n = .bound x) :
    x ∈ f.locals := by
  rw [denote] at h
  cases hfind : f.find? n with
  | none =>
    rw [hfind] at h
    cases h
  | some y =>
    rw [hfind] at h
    cases h
    exact mem_locals_of_find? hfind

/-- What stays as it is while code is resolved, and what only grows. -/
structure Follows (f f' : Frame) : Prop where
  outer : f'.blocks.tail = f.blocks.tail
  filled : f.blocks ≠ [] → f'.blocks ≠ []
  next : f.next ≤ f'.next
  count : f.count ≤ f'.count
  declared : f.declared ≤ f'.declared
  added : ∀ x ∈ f'.locals, x ∈ f.locals ∨ f.next ≤ x.slot ∧ f.declared ≤ x.declaration

lemma Follows.refl (f : Frame) : f.Follows f :=
  ⟨rfl, id, le_rfl, le_rfl, le_rfl, fun _ hx => .inl hx⟩

lemma Follows.trans {f g h : Frame} (hfg : f.Follows g) (hgh : g.Follows h) : f.Follows h := by
  refine ⟨hgh.outer.trans hfg.outer, hgh.filled ∘ hfg.filled, le_trans hfg.next hgh.next,
    le_trans hfg.count hgh.count, le_trans hfg.declared hgh.declared, ?_⟩
  intro x hx
  rcases hgh.added x hx with hx | ⟨hslot, hdecl⟩
  · exact hfg.added x hx
  · exact .inr ⟨le_trans hfg.next hslot, le_trans hfg.declared hdecl⟩

lemma Follows.of_declare? {f f' : Frame} {n : String} (h : f.declare? n = some f') :
    f.Follows f' := by
  have hlocals := locals_declare? h
  obtain ⟨b, outer, hb, -, rfl⟩ := declare?_eq_some.1 h
  refine ⟨by rw [hb]; rfl, by simp, Nat.le_succ _, le_max_left _ _, Nat.le_succ _, ?_⟩
  intro x hx
  rw [hlocals] at hx
  rcases List.mem_cons.1 hx with rfl | hx
  · exact .inr ⟨le_rfl, le_rfl⟩
  · exact .inl hx

lemma Follows.leave {f inner : Frame} (h : f.enter.Follows inner) : f.Follows (f.leave inner) :=
  ⟨rfl, id, le_rfl, h.count, h.declared, fun _ hx => .inl hx⟩

/-- What is visible around a block is visible in it. -/
lemma Follows.mem_locals {f inner : Frame} (h : f.enter.Follows inner) {x : Local}
    (hx : x ∈ f.locals) : x ∈ inner.locals := by
  obtain ⟨b, outer, hb⟩ := List.exists_cons_of_ne_nil (h.filled (List.cons_ne_nil _ _))
  have houter : outer = f.blocks := by
    have := h.outer
    rwa [hb] at this
  rw [locals, hb, houter, List.flatten_cons, List.map_append]
  exact List.mem_append_right _ hx

/-- What holds of the frames of a function: the visible locals hold the slots below the next free
one, and no two of them come from one declaration. -/
structure Proper (f : Frame) : Prop where
  slots : f.locals.map Local.slot = (List.range f.next).reverse
  count : f.next ≤ f.count
  nodup : (f.locals.map Local.declaration).Nodup
  declared : ∀ x ∈ f.locals, x.declaration < f.declared

lemma proper_initial : initial.Proper := ⟨rfl, le_rfl, List.nodup_nil, by simp [locals, initial]⟩

lemma Proper.slot_lt {f : Frame} (hf : f.Proper) {x : Local} (hx : x ∈ f.locals) :
    x.slot < f.next := by
  have : x.slot ∈ f.locals.map Local.slot := List.mem_map_of_mem hx
  rw [hf.slots] at this
  simpa using this

/-- A visible local is known by its slot as well as by its declaration. -/
lemma Proper.slot_eq_iff {f : Frame} (hf : f.Proper) {x y : Local} (hx : x ∈ f.locals)
    (hy : y ∈ f.locals) : x.slot = y.slot ↔ x.declaration = y.declaration := by
  have hslots : (f.locals.map Local.slot).Nodup := by
    rw [hf.slots, List.nodup_reverse]
    exact List.nodup_range
  constructor
  · intro h
    rw [List.inj_on_of_nodup_map hslots hx hy h]
  · intro h
    rw [List.inj_on_of_nodup_map hf.nodup hx hy h]

lemma Proper.declare? {f f' : Frame} {n : String} (hf : f.Proper) (h : f.declare? n = some f') :
    f'.Proper := by
  have hlocals := locals_declare? h
  obtain ⟨b, outer, hb, -, rfl⟩ := declare?_eq_some.1 h
  refine ⟨?_, le_max_right _ _, ?_, ?_⟩
  · rw [hlocals, List.map_cons, hf.slots, List.range_succ, List.reverse_append]
    rfl
  · rw [hlocals, List.map_cons, List.nodup_cons]
    refine ⟨?_, hf.nodup⟩
    intro hmem
    obtain ⟨x, hx, hxd⟩ := List.mem_map.1 hmem
    exact absurd (hf.declared x hx) (by rw [hxd]; exact lt_irrefl _)
  · intro x hx
    rw [hlocals] at hx
    rcases List.mem_cons.1 hx with rfl | hx
    · exact Nat.lt_succ_self _
    · exact Nat.lt_succ_of_lt (hf.declared x hx)

lemma Proper.enter {f : Frame} (hf : f.Proper) : f.enter.Proper :=
  ⟨hf.slots, hf.count, hf.nodup, hf.declared⟩

lemma Proper.leave {f inner : Frame} (hf : f.Proper) (h : f.enter.Follows inner) :
    (f.leave inner).Proper :=
  ⟨hf.slots, le_trans hf.count h.count, hf.nodup,
    fun x hx => lt_of_lt_of_le (hf.declared x hx) h.declared⟩

/-- The frame after parameters is proper, and has used one slot for each of them. -/
lemma Proper.declareAll? {ps : List (String × Location)} {f f' : Frame} (hf : f.Proper)
    (h : f.declareAll? ps = some f') : f'.Proper ∧ f'.next = f.next + ps.length := by
  induction ps generalizing f with
  | nil =>
    cases h
    exact ⟨hf, rfl⟩
  | cons p ps ih =>
    obtain ⟨f₁, hp, hps⟩ := Option.bind_eq_some_iff.1 h
    obtain ⟨hproper, hnext⟩ := ih (hf.declare? hp) hps
    obtain ⟨b, outer, hb, -, rfl⟩ := declare?_eq_some.1 hp
    refine ⟨hproper, hnext.trans ?_⟩
    rw [List.length_cons, Nat.add_right_comm, Nat.add_assoc]

/-- Parameters come before any other local, so the slot of each is its number. -/
lemma slot_eq_declaration {ps : List (String × Location)} {f f' : Frame}
    (h : f.declareAll? ps = some f') (hnext : f.next = f.declared)
    (hf : ∀ x ∈ f.locals, x.slot = x.declaration) : ∀ x ∈ f'.locals, x.slot = x.declaration := by
  induction ps generalizing f with
  | nil =>
    cases h
    exact hf
  | cons p ps ih =>
    obtain ⟨f₁, hp, hps⟩ := Option.bind_eq_some_iff.1 h
    have hlocals := locals_declare? hp
    obtain ⟨b, outer, hb, -, rfl⟩ := declare?_eq_some.1 hp
    apply ih hps (congrArg (· + 1) hnext)
    intro x hx
    rw [hlocals] at hx
    rcases List.mem_cons.1 hx with rfl | hx
    · exact hnext
    · exact hf x hx

end Frame

namespace Code

mutual

theorem resolve?_follows (c : Code) {f f' : Frame} {r : Resolved}
    (h : c.resolve? f = some (f', r)) : f.Follows f' := by
  match c with
  | constant v l | read n l =>
    cases h
    exact .refl f
  | assign t v =>
    obtain ⟨f₁, t', v', ht, hv, -⟩ := resolve?_assign.1 h
    exact (resolve?_follows t ht).trans (resolve?_follows v hv)
  | declare n l =>
    exact .of_declare? (resolve?_declare.1 h).1
  | define n l v =>
    obtain ⟨f₁, v', hv, hd, -⟩ := resolve?_define.1 h
    exact (resolve?_follows v hv).trans (.of_declare? hd)
  | scope body l =>
    obtain ⟨inner, rs, hb, rfl, -⟩ := resolve?_scope.1 h
    exact (resolveAll?_follows body hb).leave
  | function ps body l =>
    obtain ⟨start, inner, rs, -, -, rfl, -⟩ := resolve?_function.1 h
    exact .refl f'

theorem resolveAll?_follows (cs : List Code) {f f' : Frame} {rs : List Resolved}
    (h : resolveAll? f cs = some (f', rs)) : f.Follows f' := by
  match cs with
  | [] =>
    cases h
    exact .refl f
  | c :: cs =>
    obtain ⟨f₁, r, rs', hc, hcs, -⟩ := resolveAll?_cons.1 h
    exact (resolve?_follows c hc).trans (resolveAll?_follows cs hcs)

end

theorem resolve?_proper (c : Code) {f f' : Frame} {r : Resolved}
    (h : c.resolve? f = some (f', r)) (hf : f.Proper) : f'.Proper := by
  match c with
  | constant v l | read n l =>
    cases h
    exact hf
  | assign t v =>
    obtain ⟨f₁, t', v', ht, hv, -⟩ := resolve?_assign.1 h
    exact resolve?_proper v hv (resolve?_proper t ht hf)
  | declare n l =>
    exact hf.declare? (resolve?_declare.1 h).1
  | define n l v =>
    obtain ⟨f₁, v', hv, hd, -⟩ := resolve?_define.1 h
    exact (resolve?_proper v hv hf).declare? hd
  | scope body l =>
    obtain ⟨inner, rs, hb, rfl, -⟩ := resolve?_scope.1 h
    exact hf.leave (resolveAll?_follows body hb)
  | function ps body l =>
    obtain ⟨start, inner, rs, -, -, rfl, -⟩ := resolve?_function.1 h
    exact hf

/-- Code that declares nothing leaves the open blocks and the free slots as they are. -/
theorem resolve?_of_declares_nil (c : Code) {f f' : Frame} {r : Resolved}
    (h : c.resolve? f = some (f', r)) (hc : c.declares = []) :
    f'.blocks = f.blocks ∧ f'.next = f.next := by
  match c with
  | constant v l | read n l =>
    cases h
    exact ⟨rfl, rfl⟩
  | assign t v =>
    obtain ⟨f₁, t', v', ht, hv, -⟩ := resolve?_assign.1 h
    obtain ⟨hct, hcv⟩ := List.append_eq_nil_iff.1 hc
    obtain ⟨hblocks₁, hnext₁⟩ := resolve?_of_declares_nil t ht hct
    obtain ⟨hblocks₂, hnext₂⟩ := resolve?_of_declares_nil v hv hcv
    exact ⟨hblocks₂.trans hblocks₁, hnext₂.trans hnext₁⟩
  | declare n l => cases hc
  | define n l v => simp [declares] at hc
  | scope body l =>
    obtain ⟨inner, rs, hb, rfl, -⟩ := resolve?_scope.1 h
    exact ⟨rfl, rfl⟩
  | function ps body l =>
    obtain ⟨start, inner, rs, -, -, rfl, -⟩ := resolve?_function.1 h
    exact ⟨rfl, rfl⟩

/-! ### Names declared twice -/

lemma names_declare? {f f' : Frame} {n : String} (h : f.declare? n = some f') :
    f'.names = n :: f.names := by
  obtain ⟨b, outer, hb, -, rfl⟩ := Frame.declare?_eq_some.1 h
  simp [Frame.names, hb]

lemma exists_declare? {f : Frame} {n : String} (hf : f.blocks ≠ []) :
    (∃ f', f.declare? n = some f') ↔ n ∉ f.names := by
  simp only [Frame.declare?_eq_some]
  constructor
  · rintro ⟨f', b, outer, hb, hn, rfl⟩
    exact hn
  · intro hn
    obtain ⟨b, outer, hb⟩ := List.exists_cons_of_ne_nil hf
    exact ⟨_, b, outer, hb, hn, rfl⟩

/-- Code adds the names that it declares to those of the innermost block. -/
theorem names_resolve? (c : Code) {f f' : Frame} {r : Resolved} (h : c.resolve? f = some (f', r)) :
    f'.names = c.declares.reverse ++ f.names := by
  match c with
  | constant v l | read n l =>
    cases h
    rfl
  | assign t v =>
    obtain ⟨f₁, t', v', ht, hv, -⟩ := resolve?_assign.1 h
    rw [names_resolve? v hv, names_resolve? t ht]
    simp [declares]
  | declare n l =>
    exact names_declare? (resolve?_declare.1 h).1
  | define n l v =>
    obtain ⟨f₁, v', hv, hd, -⟩ := resolve?_define.1 h
    rw [names_declare? hd, names_resolve? v hv]
    simp [declares]
  | scope body l =>
    obtain ⟨inner, rs, hb, rfl, -⟩ := resolve?_scope.1 h
    rfl
  | function ps body l =>
    obtain ⟨start, inner, rs, -, -, rfl, -⟩ := resolve?_function.1 h
    rfl

theorem names_resolveAll? {cs : List Code} {f f' : Frame} {rs : List Resolved}
    (h : resolveAll? f cs = some (f', rs)) :
    f'.names = (declaredNames cs).reverse ++ f.names := by
  induction cs generalizing f rs with
  | nil =>
    cases h
    rfl
  | cons c cs ih =>
    obtain ⟨f₁, r, rs', hc, hcs, -⟩ := resolveAll?_cons.1 h
    rw [ih hcs, names_resolve? c hc]
    simp

lemma names_declareAll? {ps : List (String × Location)} {f f' : Frame}
    (h : f.declareAll? ps = some f') : f'.names = (ps.map Prod.fst).reverse ++ f.names := by
  induction ps generalizing f with
  | nil =>
    cases h
    rfl
  | cons p ps ih =>
    obtain ⟨f₁, hp, hps⟩ := Option.bind_eq_some_iff.1 h
    rw [ih hps, names_declare? hp]
    simp

lemma nodup_declare? {f f' : Frame} {n : String} (h : f.declare? n = some f')
    (hnames : f.names.Nodup) : f'.names.Nodup := by
  rw [names_declare? h]
  obtain ⟨b, outer, hb, hn, -⟩ := Frame.declare?_eq_some.1 h
  exact List.nodup_cons.2 ⟨hn, hnames⟩

lemma nodup_declareAll? {ps : List (String × Location)} {f f' : Frame}
    (h : f.declareAll? ps = some f') (hnames : f.names.Nodup) : f'.names.Nodup := by
  induction ps generalizing f with
  | nil =>
    cases h
    exact hnames
  | cons p ps ih =>
    obtain ⟨f₁, hp, hps⟩ := Option.bind_eq_some_iff.1 h
    exact ih hps (nodup_declare? hp hnames)

mutual

/-- Code that can be resolved declares no name twice in a block. -/
theorem distinct_of_resolve? (c : Code) {f f' : Frame} {r : Resolved}
    (h : c.resolve? f = some (f', r)) (hnames : f.names.Nodup) :
    f'.names.Nodup ∧ c.Distinct := by
  match c with
  | constant v l | read n l =>
    cases h
    exact ⟨hnames, trivial⟩
  | assign t v =>
    obtain ⟨f₁, t', v', ht, hv, -⟩ := resolve?_assign.1 h
    obtain ⟨hnames₁, hdt⟩ := distinct_of_resolve? t ht hnames
    obtain ⟨hnames₂, hdv⟩ := distinct_of_resolve? v hv hnames₁
    exact ⟨hnames₂, hdt, hdv⟩
  | declare n l =>
    exact ⟨nodup_declare? (resolve?_declare.1 h).1 hnames, trivial⟩
  | define n l v =>
    obtain ⟨f₁, v', hv, hd, -⟩ := resolve?_define.1 h
    obtain ⟨hnames₁, hdv⟩ := distinct_of_resolve? v hv hnames
    exact ⟨nodup_declare? hd hnames₁, hdv⟩
  | scope body l =>
    obtain ⟨inner, rs, hb, rfl, -⟩ := resolve?_scope.1 h
    obtain ⟨hinner, hdb⟩ := distinctAll_of_resolveAll? body hb List.nodup_nil
    rw [names_resolveAll? hb] at hinner
    exact ⟨hnames, by simpa using hinner, hdb⟩
  | function ps body l =>
    obtain ⟨start, inner, rs, hs, hb, rfl, -⟩ := resolve?_function.1 h
    have hstart : start.names.Nodup := nodup_declareAll? hs List.nodup_nil
    obtain ⟨hinner, hdb⟩ := distinctAll_of_resolveAll? body hb hstart
    rw [names_resolveAll? hb, names_declareAll? hs, ← List.append_assoc, ← List.reverse_append,
      Frame.names_initial, List.append_nil, List.nodup_reverse] at hinner
    exact ⟨hnames, hinner, hdb⟩

theorem distinctAll_of_resolveAll? (cs : List Code) {f f' : Frame} {rs : List Resolved}
    (h : resolveAll? f cs = some (f', rs)) (hnames : f.names.Nodup) :
    f'.names.Nodup ∧ DistinctAll cs := by
  match cs with
  | [] =>
    cases h
    exact ⟨hnames, trivial⟩
  | c :: cs =>
    obtain ⟨f₁, r, rs', hc, hcs, -⟩ := resolveAll?_cons.1 h
    obtain ⟨hnames₁, hdc⟩ := distinct_of_resolve? c hc hnames
    obtain ⟨hnames₂, hdcs⟩ := distinctAll_of_resolveAll? cs hcs hnames₁
    exact ⟨hnames₂, hdc, hdcs⟩

end

lemma notMem_of_nodup {n : String} {ns names : List String} (h : (names.reverse ++ n :: ns).Nodup) :
    n ∉ names := by
  intro hmem
  exact (List.nodup_append.1 h).2.2 n (List.mem_reverse.2 hmem) n List.mem_cons_self rfl

lemma exists_declareAll? {ps : List (String × Location)} {f : Frame} (hf : f.blocks ≠ [])
    (h : (f.names.reverse ++ ps.map Prod.fst).Nodup) :
    ∃ start, f.declareAll? ps = some start ∧ start.blocks ≠ [] := by
  induction ps generalizing f with
  | nil => exact ⟨f, rfl, hf⟩
  | cons p ps ih =>
    obtain ⟨f₁, hd⟩ := (exists_declare? hf).2 (notMem_of_nodup h)
    have hnames₁ : (f₁.names.reverse ++ ps.map Prod.fst).Nodup := by
      rw [names_declare? hd]
      simpa using h
    obtain ⟨start, hs, hne⟩ := ih ((Frame.Follows.of_declare? hd).filled hf) hnames₁
    exact ⟨start, Option.bind_eq_some_iff.2 ⟨f₁, hd, hs⟩, hne⟩

mutual

/-- Code that declares no name twice in a block can be resolved. -/
theorem exists_resolve? (c : Code) {f : Frame} (hf : f.blocks ≠ [])
    (hnames : (f.names.reverse ++ c.declares).Nodup) (hc : c.Distinct) :
    ∃ f' r, c.resolve? f = some (f', r) := by
  match c with
  | constant v l | read n l =>
    exact ⟨_, _, rfl⟩
  | assign t v =>
    rw [declares, ← List.append_assoc] at hnames
    obtain ⟨f₁, t', ht⟩ := exists_resolve? t hf (List.nodup_append.1 hnames).1 hc.1
    have hnames₁ : (f₁.names.reverse ++ v.declares).Nodup := by
      rw [names_resolve? t ht]
      simpa using hnames
    obtain ⟨f', v', hv⟩ := exists_resolve? v ((resolve?_follows t ht).filled hf) hnames₁ hc.2
    exact ⟨f', _, resolve?_assign.2 ⟨f₁, t', v', ht, hv, rfl⟩⟩
  | declare n l =>
    obtain ⟨f', hd⟩ := (exists_declare? hf).2 (notMem_of_nodup hnames)
    exact ⟨f', _, resolve?_declare.2 ⟨hd, rfl⟩⟩
  | define n l v =>
    rw [declares, ← List.append_assoc] at hnames
    obtain ⟨f₁, v', hv⟩ := exists_resolve? v hf (List.nodup_append.1 hnames).1 hc
    have hnames₁ : (f₁.names.reverse ++ [n]).Nodup := by
      rw [names_resolve? v hv]
      simpa using hnames
    have hf₁ := (resolve?_follows v hv).filled hf
    obtain ⟨f', hd⟩ := (exists_declare? hf₁).2 (notMem_of_nodup hnames₁)
    exact ⟨f', _, resolve?_define.2 ⟨f₁, v', hv, hd, rfl⟩⟩
  | scope body l =>
    obtain ⟨inner, rs, hb⟩ := exists_resolveAll? body (f := f.enter) (by simp [Frame.enter])
      (by simpa using hc.1) hc.2
    exact ⟨_, _, resolve?_scope.2 ⟨inner, rs, hb, rfl, rfl⟩⟩
  | function ps body l =>
    obtain ⟨start, hs, hne⟩ := exists_declareAll? (f := Frame.initial) (by simp [Frame.initial])
      (List.nodup_append.1 hc.1).1
    obtain ⟨inner, rs, hb⟩ := exists_resolveAll? body hne (by
      rw [names_declareAll? hs]
      simpa [Frame.names, Frame.initial] using hc.1) hc.2
    exact ⟨_, _, resolve?_function.2 ⟨start, inner, rs, hs, hb, rfl, rfl⟩⟩

theorem exists_resolveAll? (cs : List Code) {f : Frame} (hf : f.blocks ≠ [])
    (hnames : (f.names.reverse ++ declaredNames cs).Nodup) (hcs : DistinctAll cs) :
    ∃ f' rs, resolveAll? f cs = some (f', rs) := by
  match cs with
  | [] => exact ⟨_, _, rfl⟩
  | c :: cs =>
    rw [declaredNames_cons, ← List.append_assoc] at hnames
    obtain ⟨f₁, r, hc⟩ := exists_resolve? c hf (List.nodup_append.1 hnames).1 hcs.1
    have hnames₁ : (f₁.names.reverse ++ declaredNames cs).Nodup := by
      rw [names_resolve? c hc]
      simpa using hnames
    obtain ⟨f', rs, h⟩ := exists_resolveAll? cs ((resolve?_follows c hc).filled hf) hnames₁ hcs.2
    exact ⟨f', _, resolveAll?_cons.2 ⟨f₁, r, rs, hc, h, rfl⟩⟩

end

end Code

end ScriptGraph
