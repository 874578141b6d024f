import ScriptGraph.Proofs.Layout.Placeless

/-!
# Layout

The graph of a text depends on the kinds and the bytes of its tokens alone, not on where they stand.
To compare two layouts, both are compared with the one in which all tokens stand at the beginning:
parsers stay in step with a parser of those, request by request.
-/

namespace ScriptGraph

/-! ### Parsers -/

/-- The builder with all that it holds moved to the beginning. -/
def Builder.atBeginning (b : Builder) : Builder where
  functions := ⟨b.functions.live, []⟩
  blocks := ⟨b.blocks.live.map (BlockScope.rename Transport.toBeginning.relabel), []⟩
  graph := b.graph.placedAt (some .beginning)

namespace Parser

/-- A parser of the same lexemes that all stand at the beginning. -/
def atBeginning (p : Parser) : Parser where
  size := p.size
  lexemes := p.lexemes.map Lexeme.atBeginning
  ending := p.ending.atBeginning
  current := p.ending.atBeginning.lexeme
  builder := p.builder.atBeginning
  phase := p.phase

/-- A parser runs beside one of the same lexemes that all stand at the beginning. -/
lemma beside_atBeginning (l : Lexer) (b : Builder) :
    Beside .toBeginning (ofLexer l b) (ofLexer l b).atBeginning where
  size := rfl
  lexemes := Correspondence.forall₂_toBeginning.2 rfl
  ending := l.proper_stream.toBeginning
  builder := rfl
  phase := rfl
  stands := by rintro ⟨⟩

end Parser

/-! ### Layouts -/

/-- Whether two errors are the same up to their locations. -/
def Error.SameContent (e d : Error) : Prop :=
  e.move (fun _ => .unknown) = d.move fun _ => .unknown

/-- Whether two streams have tokens of the same kinds and bytes, and end alike: both properly, or
with the same error up to its location. -/
structure Stream.SameTokens (s s' : Stream) : Prop where
  lexemes : List.Forall₂ (fun x y => x.token = y.token ∧ x.bytes = y.bytes) s.lexemes s'.lexemes
  ending : Option.Rel Error.SameContent s.ending.error? s'.ending.error?

lemma Error.SameContent.atBeginning_eq {e d : Error} (h : e.SameContent d) :
    e.atBeginning = d.atBeginning := by
  cases e <;> cases d <;> simp_all [SameContent, move]

lemma Ending.atBeginning_congr {x y : Ending} (h : Option.Rel Error.SameContent x.error? y.error?) :
    x.atBeginning = y.atBeginning := by
  match x, y, h with
  | .finished _, .finished _, _ => rfl
  | .broken e _, .broken d _, .some h => simp only [atBeginning, h.atBeginning_eq]

/-- Streams with the same tokens are the same at the beginning. -/
lemma Parser.atBeginning_congr {l l' : Lexer} (h : l.stream.SameTokens l'.stream) (b : Builder) :
    (ofLexer l b).atBeginning = (ofLexer l' b).atBeginning := by
  have hlexemes : l.stream.lexemes.map Lexeme.atBeginning =
      l'.stream.lexemes.map Lexeme.atBeginning := by
    rw [← List.forall₂_eq_eq_eq, List.forall₂_map_left_iff, List.forall₂_map_right_iff]
    refine h.lexemes.imp ?_
    rintro ⟨t, s, bs, p⟩ ⟨t', s', bs', p'⟩ ⟨rfl, rfl⟩
    rfl
  have hending := Ending.atBeginning_congr h.ending
  simp only [atBeginning, ofLexer, hlexemes, hending, h.lexemes.length_eq]

/-- Answers that are alike one at the beginning are the same up to locations. -/
lemma sameContent_of_atBeginning {x y z : Except Error α}
    (hx : Alongside (fun e d => d = e.atBeginning) Eq x z)
    (hy : Alongside (fun e d => d = e.atBeginning) Eq y z) :
    Alongside Error.SameContent Eq x y := by
  cases hx with
  | @error e d he =>
    cases hy with
    | @error e' _ he' =>
      have hsame : e.atBeginning = e'.atBeginning := he.symm.trans he'
      refine .error ?_
      cases e <;> cases e' <;> simp_all [Error.SameContent, Error.move]
  | ok ha =>
    cases hy with
    | ok hb => exact .ok (ha.trans hb.symm)

/-- Layout does not matter: from streams with the same tokens a builder gets the same answers and
the same graph, up to locations. -/
theorem layout_irrelevant {l l' : Lexer} (h : l.stream.SameTokens l'.stream) (b : Builder)
    (n : Nat) :
    Alongside Error.SameContent Eq ((Parser.ofLexer l b).answer n)
        ((Parser.ofLexer l' b).answer n) ∧
      ((Parser.ofLexer l b).after n).graph?.map (·.placedAt none) =
        ((Parser.ofLexer l' b).after n).graph?.map (·.placedAt none) := by
  have hl' := Parser.beside_atBeginning l' b
  rw [← Parser.atBeginning_congr h b] at hl'
  obtain ⟨hafter, hanswer⟩ := (Parser.beside_atBeginning l b).after n
  obtain ⟨hafter', hanswer'⟩ := hl'.after n
  constructor
  · exact sameContent_of_atBeginning hanswer hanswer'
  · have hgraph : ((Parser.ofLexer l b).after n).graph?.map (·.placedAt (some .beginning)) =
        ((Parser.ofLexer l' b).after n).graph?.map (·.placedAt (some .beginning)) :=
      hafter.graph?.symm.trans hafter'.graph?
    have hremove := congrArg (Option.map (·.placedAt none)) hgraph
    simpa only [Option.map_map, Function.comp_def, Graph.placedAt_placedAt] using hremove

/-- A declaration on one line. -/
def oneLine : Lexer := .ofBytes .standard (Utf8.encode "let a = 1")

/-- The same declaration in a window of a larger text, over two lines and with a comment of another
kind. -/
def twoLines : Lexer :=
  .ofWindow (Lexicon.standard.insert "//" .comment) (Utf8.encode "; let\ta= // one\n  1;") 2 17

/-- The tokens stand elsewhere, and both layouts have the same graph but for locations. -/
theorem layout_irrelevant_twoLines :
    oneLine.stream.SameTokens twoLines.stream ∧
      oneLine.stream.lexemes.map Lexeme.location ≠ twoLines.stream.lexemes.map Lexeme.location ∧
      ∃ g g', ((Parser.ofLexer oneLine {}).after 2).graph? = some g ∧
        ((Parser.ofLexer twoLines {}).after 2).graph? = some g' ∧
        g.placedAt none = g'.placedAt none := by
  have hsame : oneLine.stream.SameTokens twoLines.stream := by
    have hending : oneLine.stream.ending.error? = none := by decide +kernel
    have hending' : twoLines.stream.ending.error? = none := by decide +kernel
    refine ⟨by decide +kernel, ?_⟩
    rw [hending, hending']
    exact .none
  have hone : ((Parser.ofLexer oneLine {}).after 2).graph?.isSome = true := by decide +kernel
  have htwo : ((Parser.ofLexer twoLines {}).after 2).graph?.isSome = true := by decide +kernel
  obtain ⟨-, hgraph⟩ := layout_irrelevant hsame {} 2
  obtain ⟨g, hg⟩ := Option.isSome_iff_exists.1 hone
  obtain ⟨g', hg'⟩ := Option.isSome_iff_exists.1 htwo
  rw [hg, hg'] at hgraph
  exact ⟨hsame, by decide +kernel, g, g', hg, hg', Option.some.inj hgraph⟩

end ScriptGraph
