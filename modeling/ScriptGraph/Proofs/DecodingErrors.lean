import ScriptGraph.Proofs.Reading.Units
import ScriptGraph.Proofs.Sifting
import ScriptGraph.Proofs.Tiling

/-!
# Decode errors

A lexer that is asked for tokens, of any kind or of those that matter to the parser, does not get
past the first place of its window at which decoding fails. It answers with a decode error there and
nowhere else, and from then on it has no other answer. A text that has a graph is thus decoded to
its end.
-/

namespace ScriptGraph

/-- There is only one place where decoding fails. -/
lemma CodePoint.FailsAt.unique {bs : List UInt8} {p q : Nat} {before before' : List Nat}
    (h : FailsAt bs p before) (h' : FailsAt bs q before') : p = q ∧ before = before' := by
  have hp := h.le h'.decodes
  have hq := h'.le h.decodes
  have hinside := h.inside
  have hinside' := h'.inside
  rw [List.length_drop] at hp hq
  have heq : p = q := by omega
  subst heq
  exact ⟨rfl, h.decodes.unique h'.decodes⟩

lemma startsMalformed_decode {bs : List UInt8} :
    Scan.startsMalformed (Symbol.decode bs) = true ↔ bs ≠ [] ∧ CodePoint.decode? bs = none := by
  cases bs with
  | nil => simp [Scan.startsMalformed]
  | cons b bs =>
    cases h : CodePoint.decode? (b :: bs) with
    | none => simp [Symbol.decode_of_none h, Scan.startsMalformed]
    | some r => simp [Symbol.decode_of_some h, Scan.startsMalformed]

namespace Lexer

variable {l : Lexer} {window : List UInt8} {offset : Nat} {location : Location} {b : Breaks}

/-! ### Requests of both kinds -/

/-- A request to a lexer. -/
inductive Request where
  /-- For the next token of any kind. -/
  | any
  /-- For the next token that matters to the parser. -/
  | significant

/-- The answer to a request. -/
def serve (l : Lexer) : Request → Lexer × Except Error Token
  | .any => l.nextRaw
  | .significant => l.next

/-- The lexer after some requests. -/
def afterAll (l : Lexer) (rs : List Request) : Lexer := rs.foldl (fun l r => (l.serve r).1) l

lemma afterAll_append (l : Lexer) (rs rs' : List Request) :
    l.afterAll (rs ++ rs') = (l.afterAll rs).afterAll rs' := List.foldl_append

lemma afterRaw_add (l : Lexer) (m n : Nat) : l.afterRaw (m + n) = (l.afterRaw m).afterRaw n := by
  induction n with
  | zero => rfl
  | succ n ih => exact congrArg (fun l => l.nextRaw.1) ih

lemma afterRaw_withBreaks (l : Lexer) (b : Breaks) (n : Nat) :
    (l.withBreaks b).afterRaw n = (l.afterRaw n).withBreaks b := by
  induction n with
  | zero => rfl
  | succ n ih => rw [afterRaw, afterRaw, ih, nextRaw_withBreaks]

/-- A token that matters is a raw token, which is asked for after some others. -/
lemma next_eq_nextRaw (l : Lexer) :
    ∃ n b, l.next = ((l.afterRaw (n + 1)).withBreaks b, (l.afterRaw n).nextRaw.2) := by
  induction hn : l.remaining using Nat.strongRecOn generalizing l with
  | ind n ih =>
    rcases hraw : l.nextRaw with ⟨l', e | t⟩
    · refine ⟨0, l'.breaks, ?_⟩
      rw [next_of_error hraw]
      simp [afterRaw, hraw, withBreaks]
    rcases hsift : l'.breaks.sift l'.lexicon t with ⟨b, _ | _⟩
    · have ht : t ≠ .eof := by
        rintro rfl
        cases hsift
      have hlt : l'.remaining < n := hn ▸ remaining_nextRaw hraw (.inl ht)
      obtain ⟨m, b', hnext⟩ := ih _ hlt (l'.withBreaks b) rfl
      have hfirst : l.afterRaw 1 = l' := congrArg Prod.fst hraw
      have hafter (k : Nat) : l.afterRaw (1 + k) = l'.afterRaw k := by
        rw [afterRaw_add, hfirst]
      refine ⟨1 + m, b', (next_of_dropped hraw hsift).trans (hnext.trans ?_)⟩
      rw [afterRaw_withBreaks, afterRaw_withBreaks, nextRaw_withBreaks, Nat.add_assoc, hafter,
        hafter]
      rfl
    · refine ⟨0, b, ?_⟩
      rw [next_of_kept hraw hsift]
      simp [afterRaw, hraw, withBreaks]

lemma serve_eq_nextRaw (l : Lexer) (r : Request) :
    ∃ n b, l.serve r = ((l.afterRaw (n + 1)).withBreaks b, (l.afterRaw n).nextRaw.2) := by
  cases r with
  | any => exact ⟨0, l.nextRaw.1.breaks, rfl⟩
  | significant => exact l.next_eq_nextRaw

/-- Requests of both kinds lead where requests for raw tokens lead. -/
lemma afterAll_eq_afterRaw (l : Lexer) (rs : List Request) :
    ∃ n b, l.afterAll rs = (l.afterRaw n).withBreaks b := by
  induction rs using List.reverseRecOn with
  | nil => exact ⟨0, l.breaks, rfl⟩
  | append_singleton rs r ih =>
    obtain ⟨n, b, hrs⟩ := ih
    obtain ⟨m, b', hr⟩ := (l.afterAll rs).serve_eq_nextRaw r
    refine ⟨n + (m + 1), b', ?_⟩
    have hlast : l.afterAll (rs ++ [r]) = ((l.afterAll rs).serve r).1 := afterAll_append l rs [r]
    rw [hlast, hr, hrs, afterRaw_withBreaks, ← afterRaw_add]
    rfl

lemma exists_at_afterAll (hat : l.cursor.At window offset [] window) (rs : List Request) :
    ∃ cs rest, (l.afterAll rs).cursor.At window offset cs rest := by
  obtain ⟨n, b, hrs⟩ := l.afterAll_eq_afterRaw rs
  rw [hrs]
  exact exists_at_afterRaw hat n

/-- After some requests to a lexer of a window its cursor reads what the window holds from there
on. -/
lemma rest_afterAll (lexicon : Lexicon) (buffer : List UInt8) (offset size : Nat)
    (rs : List Request) :
    let l := (ofWindow lexicon buffer offset size).afterAll rs
    l.cursor.rest = Symbol.decode
      ((Cursor.window buffer offset size).drop (l.cursor.position - min offset buffer.length)) := by
  intro l
  obtain ⟨cs, rest, hat⟩ := exists_at_afterAll (l := ofWindow lexicon buffer offset size)
    (.ofWindow buffer offset size) rs
  rw [← hat.rest_eq]
  exact hat.symbols

/-! ### Lexers before a malformed byte -/

/-- Whether a lexer stands before a byte at which decoding fails. -/
def Stuck (l : Lexer) : Prop := Scan.startsMalformed l.cursor.rest = true

/-- The place where a lexer is stuck is the one where decoding its window fails. -/
lemma stuck_iff {cs : List Nat} {rest : List UInt8} (h : l.cursor.At window offset cs rest) :
    l.Stuck ↔ CodePoint.FailsAt window (l.cursor.position - offset) cs := by
  have hrest := h.rest_eq
  have hinside := h.inside
  rw [Stuck, h.symbols, startsMalformed_decode]
  constructor
  · rintro ⟨hne, hfails⟩
    rw [Ne, h.rest_eq_nil_iff] at hne
    exact ⟨hrest ▸ h.decodes, by omega, hrest ▸ hfails⟩
  · rintro ⟨-, hlt, hfails⟩
    rw [Ne, h.rest_eq_nil_iff, hrest]
    exact ⟨by omega, hfails⟩

lemma nextRaw_of_stuck (h : l.Stuck) :
    l.nextRaw.2 = .error (.decode l.cursor.location) ∧ l.nextRaw.1.cursor = l.cursor := by
  have hfault : Scan.token l.lexicon l.cursor.rest = Scan.fail 0 .malformed := by
    rw [Stuck] at h
    match hrest : l.cursor.rest with
    | .malformed b :: rest => rfl
    | [] | .codePoint v bs :: rest =>
      rw [hrest] at h
      cases h
  have hcursor : l.cursor.advance 0 = l.cursor := rfl
  simp [nextRaw, hfault, Scan.fail, errorAt, hcursor]

/-- A stuck lexer answers with the decode error, whatever it is asked for, and stays stuck. -/
lemma serve_of_stuck (h : l.Stuck) (r : Request) :
    (l.serve r).2 = .error (.decode l.cursor.location) ∧ (l.serve r).1.cursor = l.cursor := by
  obtain ⟨herror, hcursor⟩ := nextRaw_of_stuck h
  cases r with
  | any => exact ⟨herror, hcursor⟩
  | significant =>
    rw [serve, next_of_error (Prod.ext rfl herror)]
    exact ⟨rfl, hcursor⟩

lemma cursor_afterAll_of_stuck (h : l.Stuck) (rs : List Request) :
    (l.afterAll rs).cursor = l.cursor := by
  induction rs generalizing l with
  | nil => rfl
  | cons r rs ih =>
    obtain ⟨-, hcursor⟩ := serve_of_stuck h r
    have hstuck : (l.serve r).1.Stuck := by
      rw [Stuck, hcursor]
      exact h
    exact (ih hstuck).trans hcursor

/-- A lexer that has answered with a decode error is stuck at its location. -/
lemma stuck_of_serve {r : Request} (h : (l.serve r).2 = .error (.decode location)) :
    (l.serve r).1.Stuck ∧ (l.serve r).1.cursor.location = location := by
  obtain ⟨n, b, hr⟩ := l.serve_eq_nextRaw r
  rw [hr] at h ⊢
  have hcursor : ((l.afterRaw (n + 1)).withBreaks b).cursor = (l.afterRaw n).nextRaw.1.cursor := rfl
  rw [Stuck, hcursor, cursor_nextRaw]
  simp only [nextRaw] at h
  split at h
  · next fault hfault =>
    cases fault with
    | malformed =>
      simp only [errorAt, Except.error.injEq, Error.decode.injEq] at h
      exact ⟨(Scan.sound_token _ _).malformed hfault, h⟩
    | unexpected expectation got => cases h
  · cases h

/-! ### Windows -/

/-- What holds of the decode errors of a lexer that reads a window, which starts at an offset. -/
structure FailsExactly (l : Lexer) (offset : Nat) (window : List UInt8) : Prop where
  /-- The cursor does not pass the place where decoding fails. -/
  bounded (p : Nat) (before : List Nat) (hp : CodePoint.FailsAt window p before)
    (rs : List Request) : (l.afterAll rs).cursor.position ≤ offset + p
  /-- At that place there is no other answer than the decode error. -/
  certain (p : Nat) (before : List Nat) (hp : CodePoint.FailsAt window p before)
    (rs : List Request) (hrs : (l.afterAll rs).cursor.position = offset + p) (r : Request) :
    ((l.afterAll rs).serve r).2 = .error (.decode (.after before))
  /-- A decode error is that of this place, where the cursor stays for good, and is the answer to
  all further requests. -/
  sticky (p : Nat) (before : List Nat) (hp : CodePoint.FailsAt window p before)
    (rs : List Request) (r : Request) (location : Location)
    (herror : ((l.afterAll rs).serve r).2 = .error (.decode location)) :
    location = .after before ∧
      ∀ rs' : List Request, (l.afterAll (rs ++ r :: rs')).cursor.position = offset + p ∧
        ∀ r', ((l.afterAll (rs ++ r :: rs')).serve r').2 = .error (.decode location)
  /-- Where decoding does not fail, there is no decode error. -/
  silent (hwindow : ∀ p before, ¬CodePoint.FailsAt window p before) (rs : List Request)
    (r : Request) (location : Location) :
    ((l.afterAll rs).serve r).2 ≠ .error (.decode location)

/-- A decode error leaves the lexer stuck at the place where decoding the window fails. -/
lemma failsAt_of_serve (hat : l.cursor.At window offset [] window) {rs : List Request} {r : Request}
    (h : ((l.afterAll rs).serve r).2 = .error (.decode location)) :
    ((l.afterAll rs).serve r).1.Stuck ∧ ∃ p before, CodePoint.FailsAt window p before ∧
      ((l.afterAll rs).serve r).1.cursor.position = offset + p ∧
      ((l.afterAll rs).serve r).1.cursor.location = location ∧ location = .after before := by
  obtain ⟨hstuck, hlocation⟩ := stuck_of_serve h
  have hlast : l.afterAll (rs ++ [r]) = ((l.afterAll rs).serve r).1 := afterAll_append l rs [r]
  obtain ⟨cs, rest, hcs⟩ := exists_at_afterAll hat (rs ++ [r])
  rw [hlast] at hcs
  obtain ⟨hinside, -⟩ := hcs.inside
  refine ⟨hstuck, _, cs, (stuck_iff hcs).1 hstuck, ?_, hlocation, ?_⟩
  · omega
  · rw [← hlocation]
    exact hcs.location

/-- A lexer at the start of its window has the decode errors of the window. -/
lemma failsExactly (hat : l.cursor.At window offset [] window) : l.FailsExactly offset window := by
  refine ⟨?_, ?_, ?_, ?_⟩
  · intro p before hp rs
    obtain ⟨cs, rest, hcs⟩ := exists_at_afterAll hat rs
    have hle := hp.le hcs.decodes
    have hposition := hcs.position
    omega
  · intro p before hp rs hrs r
    obtain ⟨cs, rest, hcs⟩ := exists_at_afterAll hat rs
    have hrest : rest = window.drop p := by
      rw [hcs.rest_eq, hrs, Nat.add_sub_cancel_left]
    have hsame : cs = before := hcs.decodes.unique (hrest ▸ hp.decodes)
    have hstuck : (l.afterAll rs).Stuck := by
      rw [stuck_iff hcs, hrs, Nat.add_sub_cancel_left, hsame]
      exact hp
    rw [← hsame, ← hcs.location]
    exact (serve_of_stuck hstuck r).1
  · intro p before hp rs r location herror
    obtain ⟨hstuck, q, before', hq, hposition, hlocation, hafter⟩ := failsAt_of_serve hat herror
    obtain ⟨rfl, rfl⟩ := hp.unique hq
    refine ⟨hafter, ?_⟩
    intro rs'
    have hsplit : l.afterAll (rs ++ r :: rs') = ((l.afterAll rs).serve r).1.afterAll rs' :=
      afterAll_append l rs (r :: rs')
    have hcursor := cursor_afterAll_of_stuck hstuck rs'
    have hstill : (((l.afterAll rs).serve r).1.afterAll rs').Stuck := by
      rw [Stuck, hcursor]
      exact hstuck
    rw [hsplit, hcursor]
    refine ⟨hposition, ?_⟩
    intro r'
    rw [(serve_of_stuck hstill r').1, hcursor, hlocation]
  · intro hwindow rs r location herror
    obtain ⟨-, p, before, hp, -⟩ := failsAt_of_serve hat herror
    exact hwindow p before hp

/-! ### Streams -/

/-- A stream that is finished ends with a raw end token. -/
lemma exists_nextRaw_eof {eof : Lexeme} (h : l.rawStream.ending = .finished eof) :
    ∃ n, (l.afterRaw n).nextRaw.2 = .ok .eof := by
  induction hn : l.remaining using Nat.strongRecOn generalizing l with
  | ind n ih =>
    rcases hraw : l.nextRaw with ⟨l', e | t⟩
    · rw [rawStream_of_error hraw] at h
      cases h
    by_cases ht : t = .eof
    · subst ht
      exact ⟨0, congrArg Prod.snd hraw⟩
    · rw [rawStream_of_ok hraw, if_neg ht] at h
      obtain ⟨m, hm⟩ := ih _ (hn ▸ remaining_nextRaw hraw (.inl ht)) h rfl
      have hfirst : l.afterRaw 1 = l' := congrArg Prod.fst hraw
      refine ⟨1 + m, ?_⟩
      rw [afterRaw_add, hfirst]
      exact hm

@[simp] lemma lexicon_afterRaw (l : Lexer) (n : Nat) : (l.afterRaw n).lexicon = l.lexicon := by
  induction n with
  | zero => rfl
  | succ n ih => exact (nextRaw_fst rfl).1.trans ih

/-- Where no keyword is an end token, the end token stands at the end. -/
lemma rest_eq_nil_of_eof (hkeywords : ∀ text, l.lexicon.keyword? text ≠ some .eof)
    (h : l.nextRaw.2 = .ok .eof) : l.cursor.rest = [] := by
  simp only [nextRaw] at h
  split at h
  · cases h
  · next t hok =>
    cases h
    rcases Scan.outcome_token_eof hok with hrest | ⟨text, htext⟩
    · exact hrest
    · exact absurd htext (hkeywords text)

end Lexer

/-- No keyword of the language is an end token. -/
lemma Lexicon.keyword?_standard_ne_eof (text : String) : standard.keyword? text ≠ some .eof := by
  intro h
  have hall : ∀ k ∈ standard.keywords, k.2 ≠ .eof := by decide
  exact hall _ (mem_of_keyword? h) rfl

/-- A source text that is finished has been decoded to its end. -/
lemma Lexer.decodes_of_finished {source : List UInt8} {eof : Lexeme}
    (h : (Lexer.ofBytes .standard source).stream.ending = .finished eof) :
    ∃ cs, CodePoint.Decodes source cs [] := by
  set l := Lexer.ofBytes .standard source
  have hat : l.cursor.At source 0 [] source := .ofBytes source
  have hending : l.stream.ending = l.rawStream.ending :=
    (stream_eq_sifted .standard (.ofBytes source)).2
  obtain ⟨n, hn⟩ := Lexer.exists_nextRaw_eof (hending.symm.trans h)
  obtain ⟨cs, rest, hcs⟩ := Lexer.exists_at_afterRaw hat n
  have hkeywords (text : String) : (l.afterRaw n).lexicon.keyword? text ≠ some .eof := by
    rw [Lexer.lexicon_afterRaw]
    exact Lexicon.keyword?_standard_ne_eof text
  have hrest := congrArg Symbol.spell (Lexer.rest_eq_nil_of_eof hkeywords hn)
  rw [hcs.symbols, Symbol.spell_decode, Symbol.spell_nil] at hrest
  subst hrest
  exact ⟨cs, hcs.decodes⟩

/-- Decode errors are exact and final, for every window and whatever tokens are asked for; and a
text with a graph is decoded to its end. -/
theorem decode_errors_exact :
    (∀ lexicon buffer offset size,
      (Lexer.ofWindow lexicon buffer offset size).FailsExactly (min offset buffer.length)
        (Cursor.window buffer offset size)) ∧
      ∀ source g, parse .standard source = .ok g → ∃ cs, CodePoint.Decodes source cs [] := by
  constructor
  · intro lexicon buffer offset size
    exact Lexer.failsExactly (.ofWindow buffer offset size)
  · intro source g h
    obtain ⟨b, m, ⟨eof, hstream⟩, -, -⟩ := parse_eq_ok.1 h
    exact Lexer.decodes_of_finished (congrArg Stream.ending hstream)

/-- After a numeral and a stray byte there is nothing but the decode error of that byte. Without
that byte the text has a graph. -/
theorem decode_errors_of_stray_byte :
    let l := Lexer.ofWindow .standard [0x31, 0xFF] 0 2
    CodePoint.FailsAt (Cursor.window [0x31, 0xFF] 0 2) 1 [0x31] ∧
      (∀ rs r, (l.afterAll (.any :: .significant :: rs)).cursor.position = 1 ∧
        ((l.afterAll (.any :: .significant :: rs)).serve r).2 = .error (.decode ⟨1, 2⟩)) ∧
      ∃ g cs, parse .standard [0x31] = .ok g ∧ CodePoint.Decodes [0x31] cs [] := by
  intro l
  have hfails : CodePoint.FailsAt (Cursor.window [0x31, 0xFF] 0 2) 1 [0x31] :=
    ⟨.cons rfl (.nil _), by decide, by decide⟩
  obtain ⟨hwindows, htexts⟩ := decode_errors_exact
  have hwindow : l.FailsExactly 0 (Cursor.window [0x31, 0xFF] 0 2) :=
    hwindows .standard [0x31, 0xFF] 0 2
  have herror : ((l.afterAll [.any]).serve .significant).2 = .error (.decode ⟨1, 2⟩) := by
    decide +kernel
  have hsome : (parse .standard [0x31]).toOption.isSome = true := by decide +kernel
  refine ⟨hfails, ?_, ?_⟩
  · intro rs r
    obtain ⟨-, hstays⟩ := hwindow.sticky 1 [0x31] hfails [.any] .significant ⟨1, 2⟩ herror
    obtain ⟨hposition, hanswers⟩ := hstays rs
    exact ⟨hposition, hanswers r⟩
  · cases hparse : parse .standard [0x31] with
    | ok g =>
      obtain ⟨cs, hcs⟩ := htexts _ _ hparse
      exact ⟨g, cs, rfl, hcs⟩
    | error e =>
      rw [hparse] at hsome
      cases hsome

end ScriptGraph
