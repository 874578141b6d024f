import Mathlib.Data.List.Forall2
import ScriptGraph.Proofs.Building
import ScriptGraph.Proofs.Scoping.Places

/-!
# Lexical scoping

A name denotes its innermost visible declaration: the builder reads the slot that it handed out
there, and a global of the name if nothing of the name is visible. The proof follows a place
inwards, with a frame that holds the visible declarations block by block.
-/

namespace ScriptGraph

/-- A statement that is no declaration declares nothing. -/
lemma Code.declares_of_ofStatement? {c : Code} {is : List Instruction} (hc : c.Tidy)
    (h : Declaration.ofStatement? is c = none) : c.declares = [] := by
  cases c with
  | constant | read | scope | function => rfl
  | assign t v => simp [declares, hc.1, hc.2.1]
  | declare => cases h
  | define => cases h

/-! ### Frames that hold the visible declarations -/

/-- Whether the open blocks of a frame hold given declarations, each in the slot that it took. The
blocks of a frame have the latest declaration first. -/
structure Frame.Holds (f : Frame) (scopes : List (List Declaration)) : Prop where
  blocks : List.Forall₂
    (List.Forall₂ fun (d : Declaration) (p : String × Local) => d.name = p.1 ∧ d.Takes p.2.slot)
    (scopes.map List.reverse) f.blocks
  nodup : ∀ b ∈ f.blocks, (b.map Prod.fst).Nodup

namespace Frame

variable {f f' : Frame} {scopes : List (List Declaration)} {ds : List Declaration}

lemma holds_initial : initial.Holds [[]] := by
  refine ⟨.cons .nil .nil, ?_⟩
  simp [initial]

lemma Holds.enter (h : f.Holds scopes) : f.enter.Holds ([] :: scopes) := by
  refine ⟨.cons .nil h.blocks, ?_⟩
  intro b hb
  rcases List.mem_cons.1 hb with rfl | hb
  · exact List.nodup_nil
  · exact h.nodup b hb

lemma Holds.of_blocks (h : f.Holds scopes) (hblocks : f'.blocks = f.blocks) : f'.Holds scopes :=
  ⟨hblocks ▸ h.blocks, hblocks ▸ h.nodup⟩

/-- A declaration joins those of the innermost block. -/
lemma Holds.declare? {d : Declaration} (h : f.Holds (ds :: scopes))
    (hd : f.declare? d.name = some f') (htakes : d.Takes f.fresh.slot) :
    f'.Holds ((ds ++ [d]) :: scopes) := by
  obtain ⟨b, outer, hb, hname, rfl⟩ := declare?_eq_some.1 hd
  obtain ⟨hblocks, hnodup⟩ := h
  rw [hb, List.map_cons, List.forall₂_cons] at hblocks
  obtain ⟨hblock, houter⟩ := hblocks
  rw [names, hb, List.headD_cons] at hname
  refine ⟨?_, ?_⟩
  · rw [List.map_cons, List.reverse_append]
    exact .cons (.cons ⟨rfl, htakes⟩ hblock) houter
  · intro b' hb'
    rcases List.mem_cons.1 hb' with rfl | hb'
    · rw [List.map_cons, List.nodup_cons]
      exact ⟨hname, hnodup b (by simp [hb])⟩
    · exact hnodup b' (by simp [hb, hb'])

/-- A declaration of a block is found under its name. -/
lemma exists_lookup {b : List (String × Local)}
    (h : List.Forall₂ (fun (d : Declaration) p => d.name = p.1 ∧ d.Takes p.2.slot) ds b)
    (hnodup : (b.map Prod.fst).Nodup) {d : Declaration} (hd : d ∈ ds) :
    ∃ x, b.lookup d.name = some x ∧ d.Takes x.slot := by
  induction h with
  | nil => cases hd
  | @cons d₀ p ds b hp _ ih =>
    obtain ⟨m, x₀⟩ := p
    obtain ⟨hname, htakes⟩ := hp
    rw [List.map_cons, List.nodup_cons] at hnodup
    rcases List.mem_cons.1 hd with rfl | hd
    · exact ⟨x₀, by simp [hname], htakes⟩
    · obtain ⟨x, hx, hx'⟩ := ih hnodup.2 hd
      refine ⟨x, ?_, hx'⟩
      -- A name is declared once in a block, so the declaration found before it has another name.
      have hne : ¬d.name = m := by
        intro heq
        obtain ⟨l₁, l₂, rfl, -⟩ := List.lookup_eq_some_iff.1 hx
        exact hnodup.1 (by simp [heq])
      rw [List.lookup_cons, beq_eq_false_iff_ne.2 hne]
      exact hx

lemma lookup_eq_none {b : List (String × Local)} {name : String}
    (h : List.Forall₂ (fun (d : Declaration) p => d.name = p.1 ∧ d.Takes p.2.slot) ds b)
    (hnone : ∀ d ∈ ds, d.name ≠ name) : b.lookup name = none := by
  induction h with
  | nil => rfl
  | @cons d₀ p ds b hp _ ih =>
    obtain ⟨m, x₀⟩ := p
    have hne : ¬name = m := by
      rintro rfl
      exact hnone d₀ List.mem_cons_self hp.1
    rw [List.lookup_cons, beq_eq_false_iff_ne.2 hne]
    exact ih fun d hd => hnone d (List.mem_cons_of_mem d₀ hd)

/-- The blocks around the innermost one of a frame. -/
lemma Holds.tail {b : List (String × Local)} {bs : List (List (String × Local))}
    (h : f.Holds (ds :: scopes)) (hb : f.blocks = b :: bs) :
    List.Forall₂ (fun (d : Declaration) p => d.name = p.1 ∧ d.Takes p.2.slot) ds.reverse b ∧
      (b.map Prod.fst).Nodup ∧ Holds { f with blocks := bs } scopes := by
  obtain ⟨hblocks, hnodup⟩ := h
  rw [hb, List.map_cons, List.forall₂_cons] at hblocks
  rw [hb] at hnodup
  refine ⟨hblocks.1, hnodup b List.mem_cons_self, hblocks.2, ?_⟩
  intro b' hb'
  exact hnodup b' (List.mem_cons_of_mem b hb')

/-- A name is found in the slot of its innermost declaration. -/
theorem Holds.find?_of_innermost (h : f.Holds scopes) {name : String} {d : Declaration}
    (hd : Innermost name scopes d) : ∃ x, f.find? name = some x ∧ d.Takes x.slot := by
  induction hd generalizing f with
  | here hd hname =>
    obtain ⟨b, bs, -, -, hb⟩ := List.forall₂_cons_left_iff.1 h.blocks
    obtain ⟨hblock, hnodup, -⟩ := h.tail hb
    obtain ⟨x, hx, htakes⟩ := exists_lookup hblock hnodup (List.mem_reverse.2 hd)
    exact ⟨x, by simp [find?, hb, ← hname, hx], htakes⟩
  | outer hds _ ih =>
    obtain ⟨b, bs, -, -, hb⟩ := List.forall₂_cons_left_iff.1 h.blocks
    obtain ⟨hblock, -, houter⟩ := h.tail hb
    obtain ⟨x, hx, htakes⟩ := ih houter
    have hnone : b.lookup name = none :=
      lookup_eq_none hblock fun d' hd' => hds d' (List.mem_reverse.1 hd')
    refine ⟨x, ?_, htakes⟩
    rw [find?, hb, List.findSome?_cons, hnone]
    exact hx

/-- A name without a visible declaration is not found. -/
theorem Holds.find?_eq_none (h : f.Holds scopes) {name : String}
    (hnone : ∀ ds ∈ scopes, ∀ d ∈ ds, d.name ≠ name) : f.find? name = none := by
  induction scopes generalizing f with
  | nil =>
    have hb : f.blocks = [] := List.forall₂_nil_left_iff.1 h.blocks
    simp [find?, hb]
  | cons ds scopes ih =>
    obtain ⟨b, bs, -, -, hb⟩ := List.forall₂_cons_left_iff.1 h.blocks
    obtain ⟨hblock, -, houter⟩ := h.tail hb
    have hlookup : b.lookup name = none :=
      lookup_eq_none hblock fun d hd => hnone ds List.mem_cons_self d (List.mem_reverse.1 hd)
    rw [find?, hb, List.findSome?_cons, hlookup]
    exact ih houter fun ds' hds' => hnone ds' (List.mem_cons_of_mem ds hds')

/-- A name that is visible has one innermost declaration. -/
theorem Holds.existsUnique_innermost (h : f.Holds scopes) {name : String}
    (hsome : ∃ ds ∈ scopes, ∃ d ∈ ds, d.name = name) : ∃! d, Innermost name scopes d := by
  induction scopes generalizing f with
  | nil =>
    obtain ⟨ds, hds, -⟩ := hsome
    cases hds
  | cons ds scopes ih =>
    obtain ⟨b, bs, -, -, hb⟩ := List.forall₂_cons_left_iff.1 h.blocks
    obtain ⟨hblock, hnodup, houter⟩ := h.tail hb
    by_cases hds : ∃ d ∈ ds, d.name = name
    · obtain ⟨d, hd, hname⟩ := hds
      refine ⟨d, .here hd hname, ?_⟩
      rintro d' (⟨hd', hname'⟩ | ⟨hds, -⟩)
      · have hnames := hblock.imp fun _ _ hp => hp.1
        rw [← List.forall₂_map_right_iff, ← List.forall₂_map_left_iff,
          List.forall₂_eq_eq_eq] at hnames
        rw [← hnames, List.map_reverse, List.nodup_reverse] at hnodup
        exact List.inj_on_of_nodup_map hnodup hd' hd (hname'.trans hname.symm)
      · exact absurd hname (hds d hd)
    · push Not at hds
      obtain ⟨d, hd, hunique⟩ := ih houter (by
        obtain ⟨ds', hds', d, hd, hname⟩ := hsome
        rcases List.mem_cons.1 hds' with rfl | hds'
        · exact absurd hname (hds d hd)
        · exact ⟨ds', hds', d, hd, hname⟩)
      refine ⟨d, .outer hds hd, ?_⟩
      rintro d' (⟨hd', hname'⟩ | ⟨-, hd'⟩)
      · exact absurd hname' (hds d' hd')
      · exact hunique d' hd'

end Frame

/-! ### Following a place -/

namespace Machine

/-- The frame after code that the machine has built. -/
lemma exists_resolve?_of_run? {m m' : Machine} {f : Frame} (c : Code)
    (h : m.builder.view.Matches f) (hrun : m.run? c.instructions = some m') :
    ∃ f' r, c.resolve? f = some (f', r) ∧ m'.builder.view.Matches f' := by
  have hrel := rel_code c h
  rw [hrun] at hrel
  generalize hx : c.build? f m.builder.graph.functions = x at hrel
  cases hrel with
  | some hbuilds =>
    obtain ⟨⟨f', r⟩, hr, hmap⟩ := Option.bind_eq_some_iff.1 hx
    obtain ⟨y, -, rfl⟩ := Option.map_eq_some_iff.1 hmap
    refine ⟨f', r, hr, ?_⟩
    rw [hbuilds.2]
    exact h.after (Code.resolve?_follows c hr) _ _

/-- The frame after statements that the machine has built. -/
lemma exists_resolveAll?_of_run? {m m' : Machine} {f : Frame} (cs : List Code)
    (h : m.builder.view.Matches f) (hrun : m.run? (Code.instructionsAll cs) = some m') :
    ∃ f' rs, Code.resolveAll? f cs = some (f', rs) ∧ m'.builder.view.Matches f' := by
  have hrel := rel_body cs h
  rw [hrun] at hrel
  generalize hx : Code.buildAll? f m.builder.graph.functions cs = x at hrel
  cases hrel with
  | some hbuilds =>
    obtain ⟨⟨f', rs⟩, hrs, hmap⟩ := Option.bind_eq_some_iff.1 hx
    obtain ⟨y, -, rfl⟩ := Option.map_eq_some_iff.1 hmap
    refine ⟨f', rs, hrs, ?_⟩
    rw [hbuilds.2]
    exact h.after (Code.resolveAll?_follows cs hrs) _ _

/-- Whether a machine stands after some instructions where given declarations are visible, as a
proper frame holds them. -/
structure At (m : Machine) (is : List Instruction) (f : Frame)
    (scopes : List (List Declaration)) : Prop where
  run : run? {} is = some m
  frame : m.builder.view.Matches f
  proper : f.Proper
  holds : f.Holds scopes

variable {m m' : Machine} {is : List Instruction} {f f' : Frame} {scopes : List (List Declaration)}
  {ds : List Declaration}

lemma run?_append_of_run? {js : List Instruction} (h : run? {} is = some m)
    (hrun : m.run? js = some m') : run? {} (is ++ js) = some m' :=
  run?_append_eq_some.2 ⟨m, h, hrun⟩

/-- The builder hands the next free slot of the frame out. -/
lemma At.takes (h : m.At is f scopes) {n : String} (hd : f.declare? n = some f') (l : Location) :
    Declaration.Takes ⟨n, l, is⟩ f.fresh.slot := by
  rcases Builder.rel_toOption (Builder.declare_rel h.frame n l) with
    ⟨e, -, hnone⟩ | ⟨⟨b, t⟩, f'', hdeclare, -, -, rfl⟩
  · rw [hd] at hnone
    cases hnone
  · exact ⟨m, b, h.run, hdeclare⟩

/-- Code without declarations of its own leaves what is visible as it is. -/
lemma At.code (h : m.At is f scopes) {c : Code} (hc : c.declares = [])
    (hrun : m.run? c.instructions = some m') :
    ∃ f' r, c.resolve? f = some (f', r) ∧ m'.At (is ++ c.instructions) f' scopes := by
  obtain ⟨f', r, hr, hframe⟩ := exists_resolve?_of_run? c h.frame hrun
  exact ⟨f', r, hr, run?_append_of_run? h.run hrun, hframe, Code.resolve?_proper c hr h.proper,
    h.holds.of_blocks (Code.resolve?_of_declares_nil c hr hc).1⟩

/-- A statement adds the declaration that it is to the innermost block. -/
lemma At.statement (h : m.At is f (ds :: scopes)) {c : Code} (hc : c.Tidy)
    (hrun : m.run? (c.instructions ++ [.statement]) = some m') :
    ∃ f' r, c.resolve? f = some (f', r) ∧ m'.At (is ++ (c.instructions ++ [.statement])) f'
      ((ds ++ (Declaration.ofStatement? is c).toList) :: scopes) := by
  obtain ⟨f', rs, hrs, hframe⟩ := exists_resolveAll?_of_run? [c] h.frame hrun
  obtain ⟨f₁, r, rs', hr, hnil, -⟩ := Code.resolveAll?_cons.1 hrs
  cases hnil
  have hproper := Code.resolve?_proper c hr h.proper
  refine ⟨f', r, hr, run?_append_of_run? h.run hrun, hframe, hproper, ?_⟩
  cases hstatement : Declaration.ofStatement? is c with
  | none =>
    rw [Option.toList_none, List.append_nil]
    have hdeclares := Code.declares_of_ofStatement? hc hstatement
    exact h.holds.of_blocks (Code.resolve?_of_declares_nil c hr hdeclares).1
  | some d =>
    cases c with
    | constant | read | assign | scope | function => cases hstatement
    | declare n l =>
      cases hstatement
      obtain ⟨hd, -⟩ := Code.resolve?_declare.1 hr
      exact h.holds.declare? hd (h.takes hd l)
    | define n l v =>
      cases hstatement
      -- The variable is declared where the value ends, and its value declares nothing.
      obtain ⟨f₂, v', hv, hd, -⟩ := Code.resolve?_define.1 hr
      rw [Code.instructions, List.append_assoc, run?_append_eq_some] at hrun
      obtain ⟨m₂, hrunv, -⟩ := hrun
      obtain ⟨f₂', v'', hv', hat⟩ := h.code hc.1 hrunv
      cases hv.symm.trans hv'
      exact hat.holds.declare? hd (hat.takes hd l)

/-- Statements add their declarations to the innermost block. -/
lemma At.statements {cs : List Code} (hcs : Code.TidyAll cs) (h : m.At is f (ds :: scopes))
    (hrun : m.run? (Code.instructionsAll cs) = some m') :
    ∃ f' rs, Code.resolveAll? f cs = some (f', rs) ∧ m'.At (is ++ Code.instructionsAll cs) f'
      ((ds ++ Declaration.ofStatements is cs) :: scopes) := by
  induction cs generalizing m is f ds with
  | nil =>
    cases hrun
    exact ⟨f, [], rfl, by simpa [Code.instructionsAll, Declaration.ofStatements] using h⟩
  | cons c cs ih =>
    have hsplit : Code.instructionsAll (c :: cs) =
        (c.instructions ++ [.statement]) ++ Code.instructionsAll cs := by
      simp [Code.instructionsAll]
    rw [hsplit, run?_append_eq_some] at hrun
    obtain ⟨m₁, hc, hrest⟩ := hrun
    obtain ⟨f₁, r, hr, h₁⟩ := h.statement hcs.1 hc
    obtain ⟨f', rs, hrs, h'⟩ := ih hcs.2 h₁ hrest
    rw [hsplit, Declaration.ofStatements]
    refine ⟨f', r :: rs, Code.resolveAll?_cons.2 ⟨f₁, r, rs, hr, hrs, rfl⟩, ?_⟩
    simpa only [List.append_assoc] using h'

/-- Parameters add their declarations to the body of their function. -/
lemma At.parameters {ps : List (String × Location)} (h : m.At is f (ds :: scopes))
    (hrun : m.run? (ps.map fun p => .parameter p.1 p.2) = some m') :
    ∃ f', m'.At (is ++ ps.map fun p => .parameter p.1 p.2) f'
      ((ds ++ Declaration.ofParameters is ps) :: scopes) := by
  induction ps generalizing m is f ds with
  | nil =>
    cases hrun
    exact ⟨f, by simpa [Declaration.ofParameters] using h⟩
  | cons p ps ih =>
    rw [List.map_cons, run?_cons_eq_some] at hrun
    obtain ⟨m₁, hp, hrest⟩ := hrun
    have hrel := rel_parameters [p] h.frame
    rw [List.map_singleton, hp] at hrel
    generalize hstart : f.declareAll? [p] = x at hrel
    cases hrel with
    | @some _ f₁ hstep =>
      obtain ⟨f₁', hd, hnil⟩ := Option.bind_eq_some_iff.1 hstart
      cases hnil
      have h₁ : m₁.At (is ++ [.parameter p.1 p.2]) f₁ ((ds ++ [⟨p.1, p.2, is⟩]) :: scopes) :=
        ⟨run?_append_of_run? h.run hp, hstep.2.1, h.proper.declare? hd,
          h.holds.declare? hd (h.takes hd p.2)⟩
      obtain ⟨f', h'⟩ := ih h₁ hrest
      refine ⟨f', ?_⟩
      simpa [Declaration.ofParameters] using h'

/-- What is visible in a new block is what is visible around it. -/
lemma At.scope (h : m.At is f scopes) :
    At { m with builder := m.builder.pushBlock true } (is ++ [.pushBlock true]) f.enter
      ([] :: scopes) := by
  refine ⟨run?_append_of_run? h.run rfl, ?_, h.proper.enter, h.holds.enter⟩
  rw [Builder.view_pushBlock h.frame true]
  exact h.frame.pushBlock true f.next

/-- Nothing is visible in a new function. -/
lemma at_function (h : run? {} is = some m) :
    At { m with builder := m.builder.pushFunction } (is ++ [.pushFunction]) Frame.initial [[]] := by
  refine ⟨run?_append_of_run? h rfl, ?_, Frame.proper_initial, Frame.holds_initial⟩
  rw [Builder.view_pushFunction]
  exact View.matches_pushFunction _

end Machine

/-- The machine that builds a unit comes to every place in it, and stands there where the visible
declarations are those of the place. -/
theorem Place.exists_at (place : Place) {c : Code} {body : List Code} {m : Machine}
    (hplace : place.fill c = Code.unit body) (hbody : Code.TidyAll body)
    (hrun : Machine.run? {} (Code.unit body).instructions = some m) :
    c.Tidy ∧ ∃ m₁ m₂, Machine.run? {} place.issued = some m₁ ∧
      m₁.run? c.instructions = some m₂ ∧
      (place ≠ [] → ∃ f, m₁.At place.issued f place.visible) := by
  induction place generalizing c with
  | nil =>
    cases hplace
    exact ⟨hbody, {}, m, rfl, hrun, fun h => absurd rfl h⟩
  | cons s outer ih =>
    obtain ⟨htidy, m₁, m₂, hm₁, hm₂, hat⟩ := ih hplace
    -- A unit is a function, so anything else has something around it.
    have hne (hs : ∀ ps before after l, s ≠ .function ps before after l) : outer ≠ [] := by
      rintro rfl
      cases s with
      | function ps before after l => exact hs ps before after l rfl
      | target | value | definition | scope => cases hplace
    cases s with
    | target v =>
      obtain ⟨f, h⟩ := hat (hne (by rintro _ _ _ _ ⟨⟩))
      rw [Surrounding.fill, Code.instructions, List.append_assoc,
        Machine.run?_append_eq_some] at hm₂
      obtain ⟨m₃, hc, -⟩ := hm₂
      rw [issued, Surrounding.opening, List.append_nil]
      exact ⟨htidy.2.2.1, m₁, m₃, hm₁, hc, fun _ => ⟨f, h⟩⟩
    | value t =>
      obtain ⟨f, h⟩ := hat (hne (by rintro _ _ _ _ ⟨⟩))
      rw [Surrounding.fill, Code.instructions, List.append_assoc,
        Machine.run?_append_eq_some] at hm₂
      obtain ⟨m₃, ht, hrest⟩ := hm₂
      obtain ⟨m₄, hc, -⟩ := Machine.run?_append_eq_some.1 hrest
      obtain ⟨f', -, -, h'⟩ := h.code htidy.1 ht
      exact ⟨htidy.2.2.2, m₃, m₄, h'.run, hc, fun _ => ⟨f', h'⟩⟩
    | definition n l =>
      obtain ⟨f, h⟩ := hat (hne (by rintro _ _ _ _ ⟨⟩))
      rw [Surrounding.fill, Code.instructions, Machine.run?_append_eq_some] at hm₂
      obtain ⟨m₃, hc, -⟩ := hm₂
      rw [issued, Surrounding.opening, List.append_nil]
      exact ⟨htidy.2, m₁, m₃, hm₁, hc, fun _ => ⟨f, h⟩⟩
    | scope before after l =>
      obtain ⟨f, h⟩ := hat (hne (by rintro _ _ _ _ ⟨⟩))
      obtain ⟨hbefore, hc, -⟩ := Code.tidyAll_append.1 htidy
      rw [Surrounding.fill, Code.instructions, List.cons_append, Machine.run?_pushBlock,
        Code.instructionsAll_append, List.append_assoc, Machine.run?_append_eq_some] at hm₂
      obtain ⟨m₃, hrunb, hrest⟩ := hm₂
      rw [Code.instructionsAll, List.append_assoc, Machine.run?_append_eq_some] at hrest
      obtain ⟨m₄, hrunc, -⟩ := hrest
      obtain ⟨f', -, -, h'⟩ := h.scope.statements hbefore hrunb
      have hissued : issued (.scope before after l :: outer) =
          issued outer ++ [.pushBlock true] ++ Code.instructionsAll before := by
        simp [issued, Surrounding.opening]
      rw [hissued]
      exact ⟨hc, m₃, m₄, h'.run, hrunc, fun _ => ⟨f', h'⟩⟩
    | function ps before after l =>
      obtain ⟨hbefore, hc, -⟩ := Code.tidyAll_append.1 htidy
      rw [Surrounding.fill, Code.instructions, List.cons_append, List.cons_append,
        Machine.run?_pushFunction, Code.instructionsAll_append, List.append_assoc,
        Machine.run?_append_eq_some] at hm₂
      obtain ⟨m₃, hrunp, hrest⟩ := hm₂
      rw [List.append_assoc, Machine.run?_append_eq_some] at hrest
      obtain ⟨m₄, hrunb, hrest⟩ := hrest
      rw [Code.instructionsAll, List.append_assoc, Machine.run?_append_eq_some] at hrest
      obtain ⟨m₅, hrunc, -⟩ := hrest
      obtain ⟨f₁, h₁⟩ := (Machine.at_function hm₁).parameters hrunp
      obtain ⟨f', -, -, h'⟩ := h₁.statements hbefore hrunb
      have hissued : issued (.function ps before after l :: outer) =
          issued outer ++ [.pushFunction] ++ ps.map (fun p => .parameter p.1 p.2) ++
            Code.instructionsAll before := by
        simp [issued, Surrounding.opening]
      rw [hissued]
      exact ⟨hc, m₄, m₅, h'.run, hrunc, fun _ => ⟨f', h'⟩⟩

/-! ### Names -/

/-- Whether a machine yields a given read for a name, and assignments to the name yield a given
write, or nothing if a variable is assigned to itself. -/
def Machine.Denotes (m : Machine) (name : String) (l : Location) (read : Option Location → Term)
    (write : Term → Option Location → Term) : Prop :=
  m.step (.get name l) = m.yield (read (some l)) ∧
    ∀ v, Builder.assign (read (some l)) v =
      .ok (if (read (some l)).isSameVariable v then .undefined (some l) else write v (some l))

/-- What lexical scoping says of a name at a place, where a machine stands when it comes to the
name. -/
structure Place.Scopes (place : Place) (name : String) (l : Location) (m : Machine) : Prop where
  run : Machine.run? {} place.issued = some m
  declared : ∀ ds ∈ place.visible, ∀ d ∈ ds, d.Precedes place.issued
  unique : (∃ ds ∈ place.visible, ∃ d ∈ ds, d.name = name) → ∃! d, Innermost name place.visible d
  bound : ∀ d, Innermost name place.visible d →
    ∃ slot, d.Takes slot ∧ m.Denotes name l (.getLocal slot) (.setLocal slot)
  free : (∀ ds ∈ place.visible, ∀ d ∈ ds, d.name ≠ name) →
    m.Denotes name l (.getGlobal name) (.setGlobal name)

lemma Machine.At.scopes {m : Machine} {f : Frame} {place : Place}
    (h : m.At place.issued f place.visible) (name : String) (l : Location) :
    place.Scopes name l m := by
  have hget : m.step (.get name l) = m.yield ((f.denote name).get l) := by
    rw [← Builder.get_eq h.frame name l]
    rfl
  refine ⟨h.run, fun _ hds _ hd => Place.precedes_of_visible hds hd,
    h.holds.existsUnique_innermost, ?_, ?_⟩
  · intro d hd
    obtain ⟨x, hx, htakes⟩ := h.holds.find?_of_innermost hd
    refine ⟨x.slot, htakes, ?_, ?_⟩
    · rw [hget, Frame.denote, hx]
      rfl
    · intro v
      rw [Builder.assign]
      split <;> rfl
  · intro hnone
    have hfind := h.holds.find?_eq_none hnone
    refine ⟨?_, ?_⟩
    · rw [hget, Frame.denote, hfind]
      rfl
    · intro v
      rw [Builder.assign]
      split <;> rfl

/-- Names are scoped lexically. Wherever a name stands in a text that has a graph, the builder reads
or writes the slot of its innermost visible declaration, and the global of the name if it has
none. -/
theorem names_scoped_lexically {lexicon : Lexicon} {source : List UInt8} {g : Graph}
    (h : parse lexicon source = .ok g) :
    ∃ b m, (Lexer.ofBytes lexicon source).Derives b ∧
      Machine.run? {} (Code.unit b.code).instructions = some m ∧ g = m.builder.graph ∧
      ∀ (place : Place) name l, place.fill (.read name l) = Code.unit b.code →
        place.issued ++ [.get name l] <+: (Code.unit b.code).instructions ∧
          ∃ m', place.Scopes name l m' := by
  obtain ⟨b, m, hb, hrun, rfl⟩ := parse_eq_ok.1 h
  refine ⟨b, m, hb, hrun, rfl, ?_⟩
  intro place name l hplace
  refine ⟨hplace ▸ place.issued_prefix (.read name l), ?_⟩
  obtain ⟨-, m₁, m₂, -, -, hat⟩ := place.exists_at hplace b.tidy_code hrun
  -- A unit is no name, so there is something around the name.
  have hne : place ≠ [] := by
    rintro rfl
    cases hplace
  obtain ⟨f, hf⟩ := hat hne
  exact ⟨m₁, hf.scopes name l⟩

/-- A text with shadowing in a block, in a value and in a function. -/
def shadowing : List UInt8 :=
  Utf8.encode "let a = do \x7b let a = a; a \x7d; fun (b) \x7b let a = b; b = a \x7d; a = b"

theorem names_scoped_lexically_shadowing :
    ∃ g b, parse .standard shadowing = .ok g ∧ (Lexer.ofBytes .standard shadowing).Derives b ∧
      ∀ (place : Place) name l, place.fill (.read name l) = Code.unit b.code →
        ∃ m, place.Scopes name l m := by
  have hsome : (parse .standard shadowing).toOption.isSome = true := by decide +kernel
  obtain ⟨g, hg⟩ := Option.isSome_iff_exists.1 hsome
  have hparse := toOption_eq_some.1 hg
  obtain ⟨b, m, hb, -, -, hplaces⟩ := names_scoped_lexically hparse
  exact ⟨g, b, hparse, hb, fun place name l hplace => (hplaces place name l hplace).2⟩

end ScriptGraph
