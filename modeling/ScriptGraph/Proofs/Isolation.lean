import Mathlib.Data.List.Induction
import ScriptGraph.Proofs.Isolation.Graphs
import ScriptGraph.Proofs.Parallel

/-!
# Isolation of units

Units that go through one builder do not see each other. Each answers every request as it does when
it is parsed alone, and the graph of all of them is that of each one after another. A graph with
nothing to prune can be put before another one, so the parser of a further unit runs beside a parser
of the unit alone, and the shared builder stays behind the graph of the earlier units.
-/

namespace ScriptGraph

/-! ### Graphs behind graphs -/

namespace Graph

open Builder (addFunction addEntry)

lemma addFunction_append (base g : Graph) (f : Function) :
    addFunction (base.append g) { f with root := f.root.rename (shifted base.size) } =
      base.append (addFunction g f) := by
  simp [addFunction, append, rename, shifted]

/-- The last function of a graph behind another one has its shifted index. -/
lemma last_append (base : Graph) {g : Graph} (hg : 0 < g.size) :
    (base.append g).size - 1 = base.size + (g.size - 1) := by
  rw [size_append]
  omega

lemma addEntry_append {base : Graph} (hbase : base.Pruned) {g : Graph} (hg : 0 < g.size) :
    addEntry (base.append g) = base.append (addEntry g) := by
  rw [addEntry, addEntry, ← hbase.prune_append, last_append base hg]
  simp [append, rename, shifted]

lemma getLastD_addEntry_append (base g : Graph) :
    (base.append (addEntry g)).entryPoints.getLastD 0 =
      base.size + (addEntry g).entryPoints.getLastD 0 := by
  rw [entryPoints_append]
  simp [addEntry, List.getLastD_eq_getLast?]

/-- A graph with nothing to prune can be put before what a machine builds. -/
def Pruned.transport {base : Graph} (hbase : base.Pruned) : Transport where
  function := (base.size + ·)
  location := id
  place := id
  graph := base.append
  location_some _ := rfl
  location_unknown := rfl
  graph_addFunction g f := (addFunction_append base g f).symm
  last_graph _ hg := last_append base hg
  graph_addEntry _ hg := (addEntry_append hbase hg).symm
  entry_graph g := getLastD_addEntry_append base g

end Graph

/-- What stands for what where the second of two parses of the same tokens goes on behind a
graph. -/
def Correspondence.behind {base : Graph} (hbase : base.Pruned) : Correspondence where
  transport := hbase.transport
  lexeme := Eq
  error := Eq
  place_beginning := rfl
  token h := by rw [h]
  bytes h _ := by rw [h]
  location h _ _ := by
    rw [h]
    rfl
  unexpected h _ _ := by rw [h]
  unsupported h _ := by rw [h]
  move := Error.eq_move_id

/-! ### Units one after another -/

/-- Between units a builder has nothing open, and its graph is well formed. -/
lemma Parsed.resting {ls : List Lexer} {b : Builder} (h : Parsed ls b) :
    b.view.functions = [] ∧ b.view.blocks = [] ∧ b.graph.WellFormed ls.length := by
  induction h with
  | nil => exact ⟨rfl, rfl, Graph.wellFormed_nil⟩
  | @snoc ls l b b' n p _ hrun hdone ih =>
    obtain ⟨hfunctions, hblocks, hgraph⟩ := ih
    obtain ⟨hfunctions', hgraph'⟩ := wellFormed_of_run hfunctions hgraph hrun hdone
    refine ⟨hfunctions', ?_, by simpa using hgraph'⟩
    rw [Parser.builder?, Option.ite_none_right_eq_some] at hdone
    obtain ⟨hdone, hb'⟩ := hdone
    cases hb'
    obtain ⟨-, body, m, -, hm, hmachine⟩ := Parser.run_ofLexer_sound hrun (.inr hdone)
    obtain ⟨r, fs, pre, t, -, -, hview⟩ := Machine.run?_unit hfunctions hmachine
    rw [hm, hview]
    exact hblocks

lemma Parsed.pruned {ls : List Lexer} {b : Builder} (h : Parsed ls b) : b.graph.Pruned :=
  h.resting.2.2.pruned

/-- A parser that goes on with a builder runs beside one that starts with a new builder. -/
lemma Parsed.beside {ls : List Lexer} {b : Builder} (h : Parsed ls b) (l : Lexer) :
    Parser.Beside (.behind h.pruned) (.ofLexer l {}) (.ofLexer l b) := by
  obtain ⟨hfunctions, hblocks, -⟩ := h.resting
  apply Parser.Beside.ofLexer
  · exact List.forall₂_same.2 fun _ _ => rfl
  · cases l.stream.ending with
    | finished x => exact .finished rfl
    | broken e x => exact .broken rfl x x
  · have hmoved : (Builder.view {}).move h.pruned.transport = ⟨[], [], b.graph⟩ :=
      congrArg (View.mk [] []) b.graph.append_empty
    have hview : b.view = ⟨b.view.functions, b.view.blocks, b.graph⟩ := rfl
    rw [hfunctions, hblocks] at hview
    exact hview.trans hmoved.symm

lemma Parser.builder?_eq_some {p : Parser} {b : Builder} :
    p.builder? = some b ↔ p.isDone = true ∧ p.builder = b := by
  rw [Parser.builder?, Option.ite_none_right_eq_some, Option.some.injEq]

/-- A unit has a graph alone if a new builder gets through it, in any number of requests. -/
lemma Lexer.parse_eq_ok {l : Lexer} {g : Graph} :
    l.parse = .ok g ↔ ∃ n p, (Parser.ofLexer l {}).run n = .ok p ∧ p.isDone = true ∧
      p.builder.graph = g := by
  have hsize : l.stream.lexemes.length < (Parser.ofLexer l {}).size + 1 := Nat.lt_succ_self _
  have hparse {p : Parser}
      (hrun : (Parser.ofLexer l {}).run ((Parser.ofLexer l {}).size + 1) = .ok p)
      (hdone : p.isDone = true) : l.parse = .ok p.builder.graph := by
    rw [l.parse_eq_map, hrun, Except.map, Parser.graph?, if_pos hdone, Option.getD_some]
  constructor
  · intro h
    cases hrun : (Parser.ofLexer l {}).run ((Parser.ofLexer l {}).size + 1) with
    | error e =>
      rw [l.parse_eq_map, hrun] at h
      cases h
    | ok p =>
      obtain ⟨hdone, -⟩ := Parser.run_ofLexer_sound hrun (.inl hsize)
      rw [hparse hrun hdone] at h
      exact ⟨_, p, hrun, hdone, Except.ok.inj h⟩
  · rintro ⟨n, p, hrun, hdone, rfl⟩
    obtain ⟨-, body, m, hbody, hm, hmachine⟩ := Parser.run_ofLexer_sound hrun (.inr hdone)
    obtain ⟨p', hrun', hdone', hm'⟩ := Parser.run_ofLexer_complete hbody hmachine hsize
    rw [hparse hrun' hdone', hm, hm']

section

variable {ls : List Lexer} {b : Builder}

/-- A unit after others appends the graph that it has alone. -/
lemma Parsed.graph_next (h : Parsed ls b) {l : Lexer} {n : Nat} {q : Parser} {b' : Builder}
    (hrun : (Parser.ofLexer l b).run n = .ok q) (hdone : q.builder? = some b') :
    ∃ g, l.parse = .ok g ∧ b'.graph = b.graph.append g := by
  obtain ⟨hq, rfl⟩ := Parser.builder?_eq_some.1 hdone
  have hruns := (h.beside l).run n
  rw [hrun] at hruns
  generalize hp : (Parser.ofLexer l {}).run n = x at hruns
  cases hruns with
  | ok hbeside =>
    rw [hbeside.isDone] at hq
    exact ⟨_, Lexer.parse_eq_ok.2 ⟨n, _, hp, hq, rfl⟩, hbeside.builder.graph⟩

/-- A builder gets through a unit that has a graph alone. -/
lemma Parsed.exists_next (h : Parsed ls b) {l : Lexer} {g : Graph} (hparse : l.parse = .ok g) :
    ∃ b', Parsed (ls ++ [l]) b' := by
  obtain ⟨n, p, hp, hdone, -⟩ := Lexer.parse_eq_ok.1 hparse
  have hruns := (h.beside l).run n
  rw [hp] at hruns
  generalize hrun : (Parser.ofLexer l b).run n = y at hruns
  cases hruns with
  | @ok p q hbeside =>
    refine ⟨q.builder, h.snoc hrun (Parser.builder?_eq_some.2 ⟨?_, rfl⟩)⟩
    rw [hbeside.isDone]
    exact hdone

/-- The graph of some units is that of each one after another. -/
lemma Parsed.graph_eq_concat (h : Parsed ls b) :
    ∃ gs, List.Forall₂ (fun l g => l.parse = .ok g) ls gs ∧ b.graph = Graph.concat gs := by
  induction h with
  | nil => exact ⟨[], .nil, rfl⟩
  | snoc h hrun hdone ih =>
    obtain ⟨gs, hgs, hgraph⟩ := ih
    obtain ⟨g, hg, hgraph'⟩ := h.graph_next hrun hdone
    refine ⟨gs ++ [g], List.rel_append hgs (.cons hg .nil), ?_⟩
    rw [hgraph', hgraph, Graph.concat_snoc]

end

/-- A builder gets through some units if each of them has a graph alone. -/
lemma exists_parsed_iff {ls : List Lexer} :
    (∃ b, Parsed ls b) ↔ ∀ l ∈ ls, ∃ g, l.parse = .ok g := by
  constructor
  · rintro ⟨b, h⟩ l hl
    obtain ⟨gs, hgs, -⟩ := h.graph_eq_concat
    obtain ⟨i, hi, rfl⟩ := List.mem_iff_getElem.1 hl
    exact ⟨_, hgs.get hi (hgs.length_eq ▸ hi)⟩
  · intro h
    induction ls using List.reverseRecOn with
    | nil => exact ⟨{}, .nil⟩
    | append_singleton ls l ih =>
      obtain ⟨b, hb⟩ := ih fun l' hl' => h l' (List.mem_append_left _ hl')
      obtain ⟨g, hg⟩ := h l (List.mem_append_right _ List.mem_cons_self)
      exact hb.exists_next hg

/-- Units are isolated. A builder gets through some units if each has a graph alone, and the graph
of all is then that of each one after another, with shifted references. A further unit answers every
request as it does alone, be it with an error or not, and leaves the earlier functions and entry
points as they are. -/
theorem units_isolated (ls : List Lexer) :
    ((∃ b, Parsed ls b) ↔ ∀ l ∈ ls, ∃ g, l.parse = .ok g) ∧
      ∀ b, Parsed ls b →
        (∃ gs, List.Forall₂ (fun l g => l.parse = .ok g) ls gs ∧ b.graph = Graph.concat gs) ∧
        (∀ l n, (Parser.ofLexer l b).answer n = (Parser.ofLexer l {}).answer n) ∧
        ∀ l n p b', (Parser.ofLexer l b).run n = .ok p → p.builder? = some b' →
          b.graph.functions <+: b'.graph.functions ∧
            b.graph.entryPoints <+: b'.graph.entryPoints := by
  refine ⟨exists_parsed_iff, ?_⟩
  intro b h
  refine ⟨h.graph_eq_concat, ?_, ?_⟩
  · intro l n
    exact ((h.beside l).after n).2.eq
  · intro l n p b' hrun hdone
    obtain ⟨g, -, hgraph⟩ := h.graph_next hrun hdone
    rw [hgraph, Graph.functions_append, Graph.entryPoints_append]
    exact ⟨List.prefix_append _ _, List.prefix_append _ _⟩

theorem units_isolated_windows :
    ∃ b gs, Parsed windows b ∧ List.Forall₂ (fun l g => l.parse = .ok g) windows gs ∧
      b.graph = Graph.concat gs := by
  have hall : windows.all (fun l => l.parse.toOption.isSome) = true := by decide +kernel
  obtain ⟨hparsed, hconcat⟩ := units_isolated windows
  obtain ⟨b, hb⟩ := hparsed.2 fun l hl => by
    obtain ⟨g, hg⟩ := Option.isSome_iff_exists.1 (List.all_eq_true.1 hall l hl)
    exact ⟨g, toOption_eq_some.1 hg⟩
  obtain ⟨⟨gs, hgs, hgraph⟩, -⟩ := hconcat b hb
  exact ⟨b, gs, hb, hgs, hgraph⟩

end ScriptGraph
