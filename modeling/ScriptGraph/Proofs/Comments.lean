import ScriptGraph.Proofs.Comments.Extent
import ScriptGraph.Proofs.Layout
import ScriptGraph.Proofs.Tiling

/-!
# Comments

A text without its comments is divided into the same tokens as the text is, without the comments. No
comment has a line feed in it, and after a comment there is one or the text ends, so only line
breaks and the end stand elsewhere. No term stands there, so both texts have the same graph.
-/

namespace ScriptGraph

/-- Sequences spell a text that is decoded into them. -/
lemma Symbol.decode_spell {symbols : List Symbol} (h : ∀ s ∈ symbols, s.IsSequence) :
    decode (spell symbols) = symbols := by
  induction symbols with
  | nil => rfl
  | cons s symbols ih =>
    obtain ⟨hs, hsymbols⟩ := List.forall_mem_cons.1 h
    cases s with
    | malformed b => exact hs.elim
    | codePoint v bs =>
      have hdecode : CodePoint.decode? (bs ++ spell symbols) = some (v, bs.length) := by
        have htake := CodePoint.decode?_take_append hs (spell symbols)
        rwa [List.take_length] at htake
      rw [spell_cons, Symbol.bytes, decode_of_some hdecode, List.take_left, List.drop_left,
        ih hsymbols]

/-! ### Pieces -/

/-- A raw token as it is found among symbols. -/
structure Piece where
  symbols : List Symbol
  token : Token

namespace Piece

/-- The symbols of some pieces. -/
def spelling (ps : List Piece) : List Symbol := ps.flatMap symbols

/-- The pieces that are no comments. -/
def withoutComments (ps : List Piece) : List Piece := ps.filter fun p => p.token ≠ .comment

@[simp] lemma spelling_nil : spelling [] = [] := rfl

@[simp] lemma spelling_cons (p : Piece) (ps : List Piece) :
    spelling (p :: ps) = p.symbols ++ spelling ps := rfl

@[simp] lemma withoutComments_nil : withoutComments [] = [] := rfl

lemma withoutComments_comment {p : Piece} (h : p.token = .comment) (ps : List Piece) :
    withoutComments (p :: ps) = withoutComments ps := by
  simp [withoutComments, h]

lemma withoutComments_cons {p : Piece} (h : p.token ≠ .comment) (ps : List Piece) :
    withoutComments (p :: ps) = p :: withoutComments ps := by
  simp [withoutComments, h]

lemma isSequence_withoutComments {ps : List Piece} (h : ∀ s ∈ spelling ps, s.IsSequence) :
    ∀ s ∈ spelling (withoutComments ps), s.IsSequence := by
  intro s hs
  obtain ⟨p, hp, hs⟩ := List.mem_flatMap.1 hs
  exact h s (List.mem_flatMap.2 ⟨p, List.mem_of_mem_filter hp, hs⟩)

/-- Whether scanning divides the symbols of some pieces into these, up to the end. -/
inductive Divides (lexicon : Lexicon) : List Piece → Prop
  | nil : Divides lexicon []
  | cons {p : Piece} {ps : List Piece} (hne : p.symbols ≠ []) (heof : p.token ≠ .eof)
      (h : Scan.token lexicon (p.symbols ++ spelling ps) = .done p.symbols.length p.token)
      (hps : Divides lexicon ps) : Divides lexicon (p :: ps)

variable {lexicon : Lexicon} {p : Piece} {ps : List Piece}

/-- Without its comments a text is divided into the other pieces, and each of them ends where it
did. -/
theorem Divides.withoutComments (h : Divides lexicon ps)
    (hseq : ∀ s ∈ spelling ps, s.IsSequence) :
    Divides lexicon (Piece.withoutComments ps) ∧
      Scan.Replaces (spelling ps) (spelling (Piece.withoutComments ps)) := by
  induction h with
  | nil => exact ⟨.nil, .alike rfl rfl⟩
  | @cons p ps hne heof hscan _ ih =>
    rw [spelling_cons, List.forall_mem_append] at hseq
    obtain ⟨hdivides, hreplaces⟩ := ih hseq.2
    by_cases hcomment : p.token = .comment
    · rw [withoutComments_comment hcomment]
      rw [hcomment] at hscan
      obtain ⟨hdigit, hends⟩ :=
        Scan.token_comment (List.forall_mem_append.2 hseq) hscan
      have hstop := hends.stop
      rw [List.drop_left] at hstop
      exact ⟨hdivides, .lineEnd hdigit (hreplaces.of_atLineEnd hstop)⟩
    · rw [withoutComments_cons hcomment]
      refine ⟨.cons hne heof ?_ hdivides, hreplaces.append hne⟩
      have hfollows : Scan.Replaces ((p.symbols ++ spelling ps).drop p.symbols.length)
          (spelling (Piece.withoutComments ps)) := by rwa [List.drop_left]
      have hkept := Scan.token_of_replaces hscan (List.append_ne_nil_of_left_ne_nil hne _) hcomment
        hfollows
      rwa [List.take_left] at hkept

/-! ### Where pieces stand -/

/-- The lexemes of some pieces from a cursor on. -/
def lexemes : Cursor → List Piece → List Lexeme
  | _, [] => []
  | c, p :: ps =>
    ⟨p.token, c.position, Symbol.spell p.symbols, c.location⟩ ::
      lexemes (c.advance p.symbols.length) ps

/-- Whether two lexemes have the same kind and the same bytes, and stand at the same location unless
they are line breaks or mark the end. -/
structure Stays (x y : Lexeme) : Prop where
  token : y.token = x.token
  bytes : y.bytes = x.bytes
  location : x.token ≠ .eof → x.token ≠ .breakLine → y.location = x.location

lemma kinds_of_stays {xs ys : List Lexeme} (h : List.Forall₂ Stays xs ys) :
    ys.map (fun x => (x.token, x.bytes)) = xs.map fun x => (x.token, x.bytes) := by
  induction h with
  | nil => rfl
  | @cons x y xs ys hxy _ ih =>
    rw [List.map_cons, List.map_cons, ih, hxy.token, hxy.bytes]

/-- A line feed is a line break of its own. -/
lemma token_lineFeed {s : Symbol} (hs : Scan.IsLineFeed s) (rest : List Symbol) :
    Scan.token lexicon (s :: rest) = .done 1 .breakLine := by
  obtain ⟨hvalue, hseq⟩ := hs
  cases s with
  | malformed b => cases hvalue
  | codePoint v bs =>
    cases hvalue
    rfl

/-- At the end of a line there is no other piece than a line feed. -/
lemma eq_lineFeed_of_atLineEnd {rest : List Symbol} (hne : p.symbols ≠ [])
    (hend : Scan.AtLineEnd (p.symbols ++ rest))
    (hscan : Scan.token lexicon (p.symbols ++ rest) = .done p.symbols.length p.token) :
    ∃ s, p = ⟨[s], .breakLine⟩ ∧ Scan.IsLineFeed s := by
  obtain ⟨symbols, t⟩ := p
  obtain ⟨s, symbols, rfl⟩ := List.exists_cons_of_ne_nil hne
  have hs : Scan.IsLineFeed s := hend s rfl
  rw [List.cons_append, token_lineFeed hs] at hscan
  simp only [Scan.done, Scan.mk.injEq, Except.ok.injEq, List.length_cons] at hscan
  obtain ⟨hlength, rfl⟩ := hscan
  have hnil : symbols = [] := List.length_eq_zero_iff.1 (Nat.succ.inj hlength).symm
  rw [hnil]
  exact ⟨s, rfl, hs⟩

lemma advance_lineFeed {s : Symbol} (hs : Scan.IsLineFeed s) (l : Location) :
    Symbol.advance l s = ⟨l.line + 1, 1⟩ := by
  obtain ⟨hvalue, -⟩ := hs
  cases s with
  | malformed b => cases hvalue
  | codePoint v bs =>
    cases hvalue
    rfl

/-- The location after symbols without a line feed is on the same line. -/
lemma line_foldl_advance {symbols : List Symbol} (h : ∀ s ∈ symbols, s.value? ≠ some 0x0A)
    (l : Location) : (symbols.foldl Symbol.advance l).line = l.line := by
  induction symbols generalizing l with
  | nil => rfl
  | cons s symbols ih =>
    obtain ⟨hs, hsymbols⟩ := List.forall_mem_cons.1 h
    rw [List.foldl_cons, ih hsymbols]
    cases s with
    | malformed b => rfl
    | codePoint v bs =>
      have hv : v ≠ 0x0A := fun hv => hs (congrArg some hv)
      rw [Symbol.advance, Location.advance_of_ne l hv]

lemma advance_of_rest {c : Cursor} {passed rest : List Symbol} (h : c.rest = passed ++ rest) :
    (c.advance passed.length).rest = rest ∧
      (c.advance passed.length).location = passed.foldl Symbol.advance c.location := by
  rw [Cursor.advance, h, List.drop_left, List.take_left]
  exact ⟨rfl, rfl⟩

/-- Without comments the other lexemes stay where they are, from cursors that are at the same
location or, at the end of a line, on the same line. -/
lemma Divides.stays (h : Divides lexicon ps) (hseq : ∀ s ∈ spelling ps, s.IsSequence)
    {c c' : Cursor} (hc : c.rest = spelling ps)
    (hc' : c'.rest = spelling (Piece.withoutComments ps))
    (hlocation : c'.location = c.location ∨
      c'.location.line = c.location.line ∧ Scan.AtLineEnd c.rest) :
    List.Forall₂ Stays ((lexemes c ps).filter fun x => x.token ≠ .comment)
      (lexemes c' (Piece.withoutComments ps)) := by
  induction h generalizing c c' with
  | nil => exact .nil
  | @cons p ps hne heof hscan _ ih =>
    rw [spelling_cons] at hc hseq
    obtain ⟨hrest, hafter⟩ := advance_of_rest hc
    obtain ⟨hp, hps⟩ := List.forall_mem_append.1 hseq
    by_cases hcomment : p.token = .comment
    · rw [withoutComments_comment hcomment] at hc' ⊢
      rw [lexemes, List.filter_cons_of_neg (by simp [hcomment])]
      rw [hcomment] at hscan
      obtain ⟨-, hends⟩ := Scan.token_comment hseq hscan
      have hpassed := hends.passed
      have hstop := hends.stop
      rw [List.take_left] at hpassed
      rw [List.drop_left] at hstop
      refine ih hps hrest hc' (.inr ⟨?_, by rwa [hrest]⟩)
      rw [hafter, line_foldl_advance hpassed]
      rcases hlocation with hlocation | ⟨hline, -⟩
      · rw [hlocation]
      · exact hline
    · rw [withoutComments_cons hcomment] at hc' ⊢
      obtain ⟨hrest', hafter'⟩ := advance_of_rest hc'
      rw [lexemes, lexemes, List.filter_cons_of_pos (by simpa using hcomment)]
      rcases hlocation with hlocation | ⟨hline, hend⟩
      · refine .cons ⟨rfl, rfl, fun _ _ => hlocation⟩ (ih hps hrest hrest' (.inl ?_))
        rw [hafter, hafter', hlocation]
      · rw [hc] at hend
        obtain ⟨s, rfl, hs⟩ := eq_lineFeed_of_atLineEnd hne hend hscan
        refine .cons ⟨rfl, rfl, fun _ hbreak => absurd rfl hbreak⟩ (ih hps hrest hrest' (.inl ?_))
        rw [hafter, hafter', List.foldl_cons, List.foldl_cons, advance_lineFeed hs,
          advance_lineFeed hs, hline]

/-- The bytes of the lexemes that are no comments are those of the other pieces. -/
lemma bytes_lexemes (c : Cursor) (ps : List Piece) :
    ((lexemes c ps).filter fun x => x.token ≠ .comment).flatMap Lexeme.bytes =
      Symbol.spell (spelling (withoutComments ps)) := by
  induction ps generalizing c with
  | nil => rfl
  | cons p ps ih =>
    rw [lexemes]
    by_cases hcomment : p.token = .comment
    · rw [withoutComments_comment hcomment, List.filter_cons_of_neg (by simp [hcomment]), ih]
    · rw [withoutComments_cons hcomment, List.filter_cons_of_pos (by simpa using hcomment),
        List.flatMap_cons, ih, spelling_cons, Symbol.spell_append]

/-! ### Raw streams in pieces -/

variable {l : Lexer}

/-- The raw stream of what is divided into pieces: their lexemes, and the end after them. -/
lemma Divides.rawStream (h : Divides l.lexicon ps) (hrest : l.cursor.rest = spelling ps) :
    l.rawStream.lexemes = lexemes l.cursor ps ∧
      ∃ location, l.rawStream.ending = .finished
        ⟨.eof, l.cursor.position + (Symbol.spell (spelling ps)).length, [], location⟩ := by
  generalize hlexicon : l.lexicon = lexicon at h
  induction h generalizing l with
  | nil =>
    have hscan : Scan.token l.lexicon l.cursor.rest = .done 0 .eof := by rw [hrest]; rfl
    obtain ⟨hanswer, -, hcurrent⟩ := Lexer.nextRaw_of_token hscan
    rw [Lexer.rawStream_of_ok (Prod.ext rfl hanswer), if_pos rfl, hcurrent]
    exact ⟨rfl, _, rfl⟩
  | @cons p ps hne heof hscan _ ih =>
    rw [spelling_cons] at hrest
    rw [← hrest, ← hlexicon] at hscan
    obtain ⟨hanswer, hcursor, hcurrent⟩ := Lexer.nextRaw_of_token hscan
    obtain ⟨hafter, -⟩ := advance_of_rest hrest
    obtain ⟨hlexemes, location, hending⟩ :=
      ih (l := l.nextRaw.1) (hcursor ▸ hafter) ((Lexer.nextRaw_fst rfl).1.trans hlexicon)
    have hposition : l.nextRaw.1.cursor.position =
        l.cursor.position + (Symbol.spell p.symbols).length := by
      rw [hcursor, Cursor.advance, hrest, List.take_left]
    rw [Lexer.rawStream_of_ok (Prod.ext rfl hanswer), if_neg heof]
    refine ⟨?_, location, ?_⟩
    · rw [hlexemes, hcurrent, hcursor, lexemes, hrest, List.take_left]
    · rw [hending, hposition, spelling_cons, Symbol.spell_append, List.length_append, Nat.add_assoc]

lemma rest_ne_nil_of_outcome {t : Token} (h : (Scan.token l.lexicon l.cursor.rest).outcome = .ok t)
    (ht : t ≠ .eof) : l.cursor.rest ≠ [] := by
  intro hnil
  rw [hnil] at h
  cases h
  exact ht rfl

/-- A raw stream that ends where its window ends divides it into pieces. -/
lemma exists_divides {window rest : List UInt8} {offset : Nat} {cs : List Nat} {eof : Lexeme}
    (hat : l.cursor.At window offset cs rest) (h : l.rawStream.ending = .finished eof)
    (hend : eof.start = offset + window.length) :
    ∃ ps, Divides l.lexicon ps ∧ l.cursor.rest = spelling ps ∧
      ∀ s ∈ spelling ps, s.IsSequence := by
  induction hm : l.remaining using Nat.strongRecOn generalizing l cs rest with
  | ind m ih =>
    rcases hraw : l.nextRaw with ⟨l', e | t⟩
    · rw [Lexer.rawStream_of_error hraw] at h
      cases h
    obtain ⟨hstart, -⟩ := l.start_nextRaw
    rw [hraw] at hstart
    rw [Lexer.rawStream_of_ok hraw] at h
    by_cases ht : t = .eof
    · rw [if_pos ht] at h
      cases h
      rw [hstart] at hend
      have hnil : l.cursor.rest = [] := by
        rw [hat.symbols, hat.rest_eq_nil_iff.2 hend, Symbol.decode_nil]
      exact ⟨[], .nil, hnil, by simp⟩
    · rw [if_neg ht] at h
      have hanswer : l.nextRaw.2 = .ok t := by rw [hraw]
      have hscan := Lexer.outcome_of_nextRaw hanswer
      have hcursor := l.cursor_nextRaw
      obtain ⟨ds, rest', hat', -⟩ := Lexer.at_nextRaw hat
      rw [hraw] at hcursor hat'
      have hlexicon := (Lexer.nextRaw_fst hraw).1
      obtain ⟨ps, hps, hrest', hseq⟩ :=
        ih _ (hm ▸ Lexer.remaining_nextRaw hraw (.inl ht)) hat' h rfl
      have hpassed := Lexer.isSequence_of_passed hat.symbols
      have hwithin := (Scan.sound_token l.lexicon l.cursor.rest).within
      have hpos := Scan.count_token_pos hscan (rest_ne_nil_of_outcome hscan ht)
      have htoken : Scan.token l.lexicon l.cursor.rest =
          .done (Scan.token l.lexicon l.cursor.rest).count t := by
        rw [Scan.done, ← hscan]
      generalize (Scan.token l.lexicon l.cursor.rest).count = n at *
      have hsplit : l.cursor.rest = l.cursor.rest.take n ++ spelling ps := by
        rw [← hrest', hcursor]
        exact (List.take_append_drop n l.cursor.rest).symm
      have hlength : (l.cursor.rest.take n).length = n := List.length_take_of_le hwithin
      have hne : l.cursor.rest.take n ≠ [] := List.ne_nil_of_length_pos (hlength.symm ▸ hpos)
      refine ⟨⟨l.cursor.rest.take n, t⟩ :: ps, .cons hne ht ?_ (hlexicon ▸ hps), hsplit, ?_⟩
      · rw [← hsplit, hlength]
        exact htoken
      · exact List.forall_mem_append.2 ⟨hpassed, hseq⟩

end Piece

/-! ### Graphs without comments -/

/-- What stands for what where line breaks and the end may have moved. -/
def Correspondence.staying : Correspondence where
  transport := .identity
  lexeme := Piece.Stays
  error _ _ := True
  place_beginning := Transport.place_identity
  token h := h.token
  bytes h _ := h.bytes
  location h := h.location
  unexpected _ _ _ := trivial
  unsupported _ _ := trivial
  move _ := trivial

/-- Lexers whose raw lexemes stay, but for comments, have parsers that go side by side. -/
lemma Parser.beside_staying {l l' : Lexer} (hlexicon : l'.lexicon = l.lexicon)
    (hbreaks : l'.breaks = l.breaks)
    (hlexemes : List.Forall₂ Piece.Stays
      (l.rawStream.lexemes.filter fun x => x.token ≠ .comment) l'.rawStream.lexemes)
    (hending : Correspondence.staying.Endings l.rawStream.ending l'.rawStream.ending)
    (b : Builder) : Beside .staying (ofLexer l b) (ofLexer l' b) := by
  have hsieve := Lexer.sieve_congr (fun _ _ h => h.token) hlexemes l.lexicon l.breaks
  rw [Lexer.sieve_withoutComments] at hsieve
  apply Beside.ofLexer
  · rw [l.stream_eq_sieve, l'.stream_eq_sieve, hlexicon, hbreaks]
    exact hsieve
  · rw [l.stream_eq_sieve, l'.stream_eq_sieve]
    exact hending
  · exact b.moved_identity

/-- Lexers whose parsers go side by side have the same graph. -/
lemma Lexer.parse_of_beside {l l' : Lexer}
    (h : Parser.Beside .staying (.ofLexer l {}) (.ofLexer l' {})) (g : Graph) :
    l'.parse = .ok g ↔ l.parse = .ok g := by
  have hrun := h.run ((Parser.ofLexer l {}).size + 1)
  rw [l'.parse_eq_map, l.parse_eq_map, h.size]
  revert hrun
  generalize (Parser.ofLexer l {}).run _ = x, (Parser.ofLexer l' {}).run _ = y
  rintro (herror | hbeside)
  · constructor <;> rintro ⟨⟩
  · have hgraph := hbeside.graph?.trans Option.map_id_apply
    simp only [Except.map, hgraph]

/-- Comments are invisible. If the raw tokens of a source reach its end, the bytes of those that are
no comments have exactly these raw tokens, and the same graph, if one of the two has a graph. -/
theorem comments_invisible (lexicon : Lexicon) (source : List UInt8) (eof : Lexeme)
    (h : (Lexer.ofBytes lexicon source).rawStream.ending = .finished eof)
    (hend : eof.start = source.length) :
    let kept := (Lexer.ofBytes lexicon source).rawStream.lexemes.filter fun x => x.token ≠ .comment
    let source' := kept.flatMap Lexeme.bytes
    let raw' := (Lexer.ofBytes lexicon source').rawStream
    raw'.lexemes.map (fun x => (x.token, x.bytes)) = kept.map (fun x => (x.token, x.bytes)) ∧
      (∃ eof', raw'.ending = .finished eof' ∧ eof'.start = source'.length) ∧
      ∀ g, parse lexicon source' = .ok g ↔ parse lexicon source = .ok g := by
  intro kept source' raw'
  rw [← Nat.zero_add source.length] at hend
  obtain ⟨ps, hps, hrest, hseq⟩ := Piece.exists_divides (Cursor.At.ofBytes source) h hend
  obtain ⟨hps', -⟩ := hps.withoutComments hseq
  obtain ⟨hlexemes, place, hending⟩ := hps.rawStream hrest
  have hsource' : source' = Symbol.spell (Piece.spelling (Piece.withoutComments ps)) := by
    rw [← Piece.bytes_lexemes (Lexer.ofBytes lexicon source).cursor ps, ← hlexemes]
  have hcursor' : (Lexer.ofBytes lexicon source').cursor = ⟨Symbol.decode source', 0, .beginning⟩ :=
    Cursor.ofBytes_eq source'
  have hrest' : (Lexer.ofBytes lexicon source').cursor.rest =
      Piece.spelling (Piece.withoutComments ps) := by
    rw [hcursor', hsource']
    exact Symbol.decode_spell (Piece.isSequence_withoutComments hseq)
  obtain ⟨hlexemes', place', hending'⟩ :=
    Piece.Divides.rawStream (l := .ofBytes lexicon source') hps' hrest'
  have hstays : List.Forall₂ Piece.Stays kept raw'.lexemes := by
    have hstays := hps.stays hseq hrest hrest' (.inl rfl)
    rwa [← hlexemes, ← hlexemes'] at hstays
  refine ⟨Piece.kinds_of_stays hstays, ⟨_, hending', ?_⟩, ?_⟩
  · rw [hcursor', hsource']
    exact Nat.zero_add _
  · have hends : Correspondence.staying.Endings
        (Lexer.ofBytes lexicon source).rawStream.ending raw'.ending := by
      rw [hending, hending']
      exact .finished ⟨rfl, rfl, fun heof => absurd rfl heof⟩
    have hbeside : Parser.Beside .staying (.ofLexer (Lexer.ofBytes lexicon source) {})
        (.ofLexer (Lexer.ofBytes lexicon source') {}) := by
      apply Parser.beside_staying _ _ hstays hends
      · rfl
      · rfl
    exact Lexer.parse_of_beside hbeside

/-- Three comments leave line breaks and blanks behind, and the variables where they are. -/
theorem comments_invisible_lines :
    let source := Utf8.encode "let x = 1 -- one\n-- nothing\nx --- end"
    let source' := Utf8.encode "let x = 1 \n\nx "
    ∃ g, parse .standard source = .ok g ∧ parse .standard source' = .ok g := by
  intro source source'
  have hfinished : (Lexer.ofBytes .standard source).rawStream.ending.error? = none := by
    decide +kernel
  have hend : (Lexer.ofBytes .standard source).rawStream.ending.lexeme.start = source.length := by
    decide +kernel
  have hsource' : ((Lexer.ofBytes .standard source).rawStream.lexemes.filter
      fun x => x.token ≠ .comment).flatMap Lexeme.bytes = source' := by decide +kernel
  have hok : (parse .standard source).toOption.isSome = true := by decide +kernel
  cases hending : (Lexer.ofBytes .standard source).rawStream.ending with
  | broken e x =>
    rw [hending] at hfinished
    cases hfinished
  | finished eof =>
    rw [hending] at hend
    obtain ⟨-, -, hgraph⟩ := comments_invisible .standard source eof hending hend
    rw [hsource'] at hgraph
    cases hparse : parse .standard source with
    | error e =>
      rw [hparse] at hok
      cases hok
    | ok g => exact ⟨g, rfl, (hgraph g).2 hparse⟩

end ScriptGraph
