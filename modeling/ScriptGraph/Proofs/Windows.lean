import Mathlib.Tactic.IntervalCases
import ScriptGraph.Proofs.DecodingErrors
import ScriptGraph.Proofs.Parallel

/-!
# Windows

A lexer of a window is a lexer of the bytes of the window that stands further on in its buffer. What
it reads ahead is what the buffer has there up to the end of the window, so no answer depends on a
byte outside of it, and a window is parsed as its bytes are.
-/

namespace ScriptGraph

/-! ### Further on in a buffer -/

/-- The lexeme some bytes further on. -/
def Lexeme.shift (n : Nat) (x : Lexeme) : Lexeme := { x with start := n + x.start }

/-- The cursor some bytes further on. -/
def Cursor.shift (n : Nat) (c : Cursor) : Cursor := { c with position := n + c.position }

lemma Cursor.advance_shift (n k : Nat) (c : Cursor) :
    (c.shift n).advance k = (c.advance k).shift n := by
  simp only [advance, shift, Nat.add_assoc]

/-- The end of a stream some bytes further on. -/
def Ending.shift (n : Nat) : Ending → Ending
  | finished x => .finished (x.shift n)
  | broken e x => .broken e (x.shift n)

/-- The stream some bytes further on. -/
def Stream.shift (n : Nat) (s : Stream) : Stream :=
  ⟨s.lexemes.map (Lexeme.shift n), s.ending.shift n⟩

namespace Lexer

/-- The lexer some bytes further on. -/
def shift (n : Nat) (l : Lexer) : Lexer :=
  { l with cursor := l.cursor.shift n, current := l.current.shift n }

variable (n : Nat) (l : Lexer)

/-- A request some bytes further on has the same answer. -/
lemma nextRaw_shift : (l.shift n).nextRaw = (l.nextRaw.1.shift n, l.nextRaw.2) := by
  have hrest : (l.shift n).cursor.rest = l.cursor.rest := rfl
  simp only [nextRaw, hrest]
  simp only [shift, Cursor.advance_shift]
  split <;> rfl

lemma next_shift : (l.shift n).next = (l.next.1.shift n, l.next.2) := by
  induction hm : l.remaining using Nat.strongRecOn generalizing l with
  | ind m ih =>
    have hraw' := nextRaw_shift n l
    rcases hraw : l.nextRaw with ⟨l', e | t⟩
    · rw [hraw] at hraw'
      rw [next_of_error hraw, next_of_error hraw']
    · rw [hraw] at hraw'
      rcases hsift : l'.breaks.sift l'.lexicon t with ⟨b, _ | _⟩
      · have ht : t ≠ .eof := by
          rintro rfl
          cases hsift
        have hlt : l'.remaining < m := hm ▸ remaining_nextRaw hraw (.inl ht)
        rw [next_of_dropped hraw hsift, next_of_dropped hraw' hsift]
        exact ih _ hlt (l'.withBreaks b) rfl
      · rw [next_of_kept hraw hsift, next_of_kept hraw' hsift]
        rfl

lemma serve_shift (r : Request) : (l.shift n).serve r = ((l.serve r).1.shift n, (l.serve r).2) := by
  cases r with
  | any => exact l.nextRaw_shift n
  | significant => exact l.next_shift n

lemma afterAll_shift (rs : List Request) : (l.shift n).afterAll rs = (l.afterAll rs).shift n := by
  induction rs generalizing l with
  | nil => rfl
  | cons r rs ih =>
    have hserve : ((l.shift n).serve r).1 = (l.serve r).1.shift n := by rw [serve_shift]
    exact (congrArg (·.afterAll rs) hserve).trans (ih _)

/-- The tokens of a lexer some bytes further on are those of the lexer, as much further on. -/
lemma stream_shift : (l.shift n).stream = l.stream.shift n := by
  induction hm : l.remaining using Nat.strongRecOn generalizing l with
  | ind m ih =>
    have hnext' := next_shift n l
    rcases hnext : l.next with ⟨l', e | t⟩
    · rw [hnext] at hnext'
      rw [stream_of_next_error hnext, stream_of_next_error hnext']
      rfl
    · rw [hnext] at hnext'
      rw [stream_of_next_ok hnext, stream_of_next_ok hnext']
      by_cases ht : t = .eof
      · rw [if_pos ht, if_pos ht]
        rfl
      · rw [if_neg ht, if_neg ht, ih _ (hm ▸ remaining_next hnext ht) l' rfl]
        rfl

end Lexer

/-! ### Parsing further on -/

/-- What stands for what where all lexemes stand some bytes further on. -/
def Correspondence.shift (n : Nat) : Correspondence where
  transport := .identity
  lexeme x y := y = x.shift n
  error := Eq
  place_beginning := Transport.place_identity
  token := by
    rintro x _ rfl
    rfl
  bytes := by
    rintro x _ rfl _
    rfl
  location := by
    rintro x _ rfl _ _
    rfl
  unexpected := by
    rintro x _ rfl _ _
    rfl
  unsupported := by
    rintro x _ rfl _
    rfl
  move := Error.eq_move_id

lemma Parser.beside_shift (n : Nat) (l : Lexer) (b : Builder) :
    Beside (.shift n) (ofLexer l b) (ofLexer (l.shift n) b) := by
  have hstream := l.stream_shift n
  apply Beside.ofLexer
  · simp only [hstream, Stream.shift, List.forall₂_map_right_iff]
    exact List.forall₂_same.2 fun _ _ => rfl
  · rw [hstream, Stream.shift]
    cases l.stream.ending with
    | finished x => exact .finished rfl
    | broken e x => exact .broken rfl _ _
  · exact b.moved_identity

/-- A parser answers the same some bytes further on, and ends with the same graph. -/
lemma Parser.answer_shift (n : Nat) (l : Lexer) (b : Builder) (k : Nat) :
    (ofLexer (l.shift n) b).answer k = (ofLexer l b).answer k ∧
      ((ofLexer (l.shift n) b).after k).graph? = ((ofLexer l b).after k).graph? := by
  obtain ⟨hafter, hanswer⟩ := (beside_shift n l b).after k
  refine ⟨hanswer.eq, ?_⟩
  rw [hafter.graph?]
  exact Option.map_id_apply

/-! ### The bytes of lexemes -/

namespace Lexer

variable {buffer : List UInt8} {stop : Nat} {l : Lexer}

/-- Requests for raw tokens do nothing to a cursor but advance it. -/
lemma exists_advance_afterRaw (l : Lexer) (n : Nat) :
    ∃ k, (l.afterRaw n).cursor = l.cursor.advance k := by
  induction n with
  | zero => exact ⟨0, rfl⟩
  | succ n ih =>
    obtain ⟨k, hk⟩ := ih
    have hnext := cursor_nextRaw (l.afterRaw n)
    rw [hk, Cursor.advance_advance] at hnext
    exact ⟨_, hnext⟩

/-- After an error the current lexeme is empty. -/
lemma bytes_nextRaw_of_error {e : Error} (h : l.nextRaw.2 = .error e) :
    l.nextRaw.1.current.bytes = [] := by
  simp only [nextRaw] at h ⊢
  split
  · rfl
  · next houtcome =>
    rw [houtcome] at h
    cases h

/-- The bytes of the current lexeme are those that the buffer has in its range. -/
lemma bytes_afterRaw (hstop : stop ≤ buffer.length) (h : l.cursor.Reads buffer stop)
    (hcurrent : l.current.bytes = []) (n : Nat) :
    (l.afterRaw n).current.bytes =
      Cursor.slice buffer (l.afterRaw n).current.start (l.afterRaw n).current.stop := by
  have hnil {x : Lexeme} (hx : x.bytes = []) : x.bytes = Cursor.slice buffer x.start x.stop := by
    rw [Lexeme.stop, hx, Cursor.slice, List.drop_eq_nil_of_le]
    exact List.length_take_le _ _
  cases n with
  | zero => exact hnil hcurrent
  | succ n =>
    obtain ⟨k, hk⟩ := l.exists_advance_afterRaw n
    obtain ⟨hreads, -⟩ := h.advance hstop k
    rw [← hk] at hreads
    obtain ⟨hstart, -⟩ := start_nextRaw (l.afterRaw n)
    rw [afterRaw]
    cases hanswer : (l.afterRaw n).nextRaw.2 with
    | error e =>
      exact hnil (bytes_nextRaw_of_error hanswer)
    | ok t =>
      have hbytes := bytes_nextRaw hanswer
      obtain ⟨-, hslice⟩ := hreads.advance hstop
        (Scan.token (l.afterRaw n).lexicon (l.afterRaw n).cursor.rest).count
      rw [Lexeme.stop, hbytes, hstart]
      exact hslice

end Lexer

/-- A lexer of a window is one of the bytes of the window that stands further on. -/
lemma Lexer.ofWindow_eq_shift (lexicon : Lexicon) (buffer : List UInt8) (offset size : Nat) :
    ofWindow lexicon buffer offset size =
      (ofBytes lexicon (Cursor.slice buffer (min offset buffer.length)
        (min (min offset buffer.length + size) buffer.length))).shift
        (min offset buffer.length) := by
  rw [← Cursor.window_eq_slice]
  generalize hbytes : Cursor.window buffer offset size = bytes
  rw [ofWindow, ofBytes, Cursor.ofBytes_eq, Cursor.ofWindow, hbytes]
  rfl

/-- Whether a lexer of a window, which goes from a start to a stop in its buffer, does exactly what
a lexer of some bytes does. -/
structure Lexer.Mirrors (l l' : Lexer) (buffer : List UInt8) (start stop : Nat) : Prop where
  /-- Requests of any kinds have the same answers, tokens or errors. -/
  answers (rs : List Lexer.Request) (r : Lexer.Request) :
    ((l.afterAll rs).serve r).2 = ((l'.afterAll rs).serve r).2
  /-- The current lexemes are the same but for their ranges, which lie further on. -/
  lexemes (rs : List Lexer.Request) :
    (l.afterAll rs).current = (l'.afterAll rs).current.shift start
  /-- They have the same values. -/
  values (rs : List Lexer.Request) : (l.afterAll rs).current.value = (l'.afterAll rs).current.value
  /-- The bytes of a lexeme are those that the buffer has in its range. -/
  ranges (rs : List Lexer.Request) :
    (l.afterAll rs).current.bytes =
      Cursor.slice buffer (l.afterAll rs).current.start (l.afterAll rs).current.stop
  /-- Wherever the cursor stands, it sees the bytes of the buffer up to the end of the window and
  none beyond. -/
  bytes (n k : Nat) :
    (l.cursor.advance n).byteAt? k =
      if (l.cursor.advance n).position + k < stop then buffer[(l.cursor.advance n).position + k]?
      else none
  /-- The next symbol is decoded from these bytes. -/
  symbols (n : Nat) :
    (l.cursor.advance n).peek? =
      (Symbol.decode (Cursor.slice buffer (l.cursor.advance n).position stop)).head?
  /-- Parsers with the same builder answer all requests alike, and have the same graph. -/
  parses (b : Builder) (n : Nat) :
    (Parser.ofLexer l b).answer n = (Parser.ofLexer l' b).answer n ∧
      ((Parser.ofLexer l b).after n).graph? = ((Parser.ofLexer l' b).after n).graph?

/-- Windows are exact: a lexer of a window does what a lexer of the bytes of the window does, with
shifted ranges, and buffers that agree in the window have the same lexer of it. -/
theorem windows_exact (lexicon : Lexicon) (buffer : List UInt8) (offset size : Nat) :
    let start := min offset buffer.length
    let stop := min (start + size) buffer.length
    (Lexer.ofWindow lexicon buffer offset size).Mirrors
        (Lexer.ofBytes lexicon (Cursor.slice buffer start stop)) buffer start stop ∧
      ∀ buffer' : List UInt8, buffer'.length = buffer.length →
        (∀ i, start ≤ i → i < stop → buffer'[i]? = buffer[i]?) →
        Lexer.ofWindow lexicon buffer' offset size = Lexer.ofWindow lexicon buffer offset size := by
  intro start stop
  have hstop : stop ≤ buffer.length := Nat.min_le_right _ _
  have hshift : Lexer.ofWindow lexicon buffer offset size =
      (Lexer.ofBytes lexicon (Cursor.slice buffer start stop)).shift start :=
    Lexer.ofWindow_eq_shift lexicon buffer offset size
  have hreads : (Lexer.ofWindow lexicon buffer offset size).cursor.Reads buffer stop :=
    Cursor.reads_ofWindow buffer offset size
  constructor
  · refine ⟨?_, ?_, ?_, ?_, ?_, ?_, ?_⟩
    · intro rs r
      rw [hshift, Lexer.afterAll_shift, Lexer.serve_shift]
    · intro rs
      rw [hshift, Lexer.afterAll_shift]
      rfl
    · intro rs
      rw [hshift, Lexer.afterAll_shift]
      rfl
    · intro rs
      obtain ⟨n, b, hn⟩ := Lexer.afterAll_eq_afterRaw (Lexer.ofWindow lexicon buffer offset size) rs
      rw [hn]
      exact Lexer.bytes_afterRaw hstop hreads rfl n
    · intro n k
      exact (hreads.advance hstop n).1.byteAt? k
    · intro n
      exact (hreads.advance hstop n).1.peek?
    · intro b n
      rw [hshift]
      exact Parser.answer_shift start _ b n
  · intro buffer' hlength hagree
    have hwindow : Cursor.window buffer' offset size = Cursor.window buffer offset size := by
      rw [Cursor.window_eq_slice, Cursor.window_eq_slice, hlength]
      apply List.ext_getElem?
      intro i
      rw [Cursor.getElem?_slice, Cursor.getElem?_slice]
      split
      · next hi => exact hagree _ (Nat.le_add_right _ _) hi
      · rfl
    rw [Lexer.ofWindow, Cursor.ofWindow, hwindow, hlength]
    rfl

/-- The operator at the end of a window goes on beyond it in one of two buffers, which also has an
error there. -/
theorem windows_exact_operator :
    let buffer := Utf8.encode "let x = 1"
    let buffer' := Utf8.encode "\"+\" x ==\""
    buffer'.length = buffer.length ∧
      Lexer.ofWindow .standard buffer' 4 3 = Lexer.ofWindow .standard buffer 4 3 ∧
      ((Lexer.ofWindow .standard buffer' 4 3).afterAll [.significant, .significant]).current =
        ⟨.assign, 6, [0x3D], ⟨1, 3⟩⟩ := by
  intro buffer buffer'
  have hlength : buffer'.length = buffer.length := by decide +kernel
  have hagree (i : Nat) (hi : 4 ≤ i) (hi' : i < 7) : buffer'[i]? = buffer[i]? := by
    interval_cases i <;> decide +kernel
  obtain ⟨-, hsame⟩ := windows_exact .standard buffer 4 3
  have hwindow := hsame buffer' hlength hagree
  refine ⟨hlength, hwindow, ?_⟩
  rw [hwindow]
  decide +kernel

end ScriptGraph
