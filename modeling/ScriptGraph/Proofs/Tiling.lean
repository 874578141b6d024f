import Mathlib.Logic.Relation
import Mathlib.Tactic.Set
import ScriptGraph.Lexer.Basic
import ScriptGraph.Proofs.Scanning

/-!
# Raw tokens tile their window

The raw tokens of a window lie side by side. Each starts where the one before it ends, together they
are the bytes passed so far, and each but the one that marks the end takes a byte at least. The
location of a token counts the lines and the code points of what stands before it in the window.
Blanks, numerals and the quote of a raw string are passed byte by byte just as well, with no
decoding, because what is passed there are ASCII characters other than line feeds.
-/

namespace ScriptGraph

/-! ### Single bytes -/

namespace Cursor

/-- Whether a cursor gets to another place by single bytes. -/
def BytewiseTo : Cursor → Cursor → Prop :=
  Relation.ReflTransGen fun c c' => c.advancePlain? = some c'

/-- Plain symbols are passed byte by byte. -/
lemma bytewiseTo_advance {c : Cursor} {bytes : List UInt8} (h : c.rest = Symbol.decode bytes)
    {n : Nat} (hplain : ∀ s ∈ c.rest.take n, s.isPlain) : c.BytewiseTo (c.advance n) := by
  induction n generalizing c bytes with
  | zero => exact .refl
  | succ n ih =>
    cases hrest : c.rest with
    | nil =>
      have hself : c.advance (n + 1) = c := by
        cases c
        cases hrest
        rfl
      rw [hself]
      exact .refl
    | cons s ss =>
      rw [hrest, List.take_succ_cons, List.forall_mem_cons] at hplain
      have hstep : c.advancePlain? = some (c.advance 1) :=
        advancePlain?_eq_some h (congrArg List.head? hrest) hplain.1
      obtain ⟨bytes', -, hdrop⟩ := Symbol.drop_decode 1 bytes
      have htail : (c.advance 1).rest = ss := congrArg (List.drop 1) hrest
      have hnext : (c.advance 1).BytewiseTo ((c.advance 1).advance n) :=
        ih ((congrArg (List.drop 1) h).trans hdrop) (htail.symm ▸ hplain.2)
      rw [advance_advance, Nat.add_comm] at hnext
      exact .head hstep hnext

end Cursor

namespace Lexer

variable {l : Lexer} {window rest : List UInt8} {offset : Nat} {cs : List Nat} {t : Token}
  {e : Error}

/-! ### One request -/

/-- A request moves the cursor past the symbols that the scan has passed, also where it fails. -/
lemma cursor_nextRaw (l : Lexer) :
    l.nextRaw.1.cursor = l.cursor.advance (Scan.token l.lexicon l.cursor.rest).count := by
  simp only [nextRaw]
  split <;> rfl

/-- The current lexeme starts where the cursor stood. -/
lemma start_nextRaw (l : Lexer) :
    l.nextRaw.1.current.start = l.cursor.position ∧
      l.nextRaw.1.current.location = l.cursor.location := by
  simp only [nextRaw]
  split <;> exact ⟨rfl, rfl⟩

/-- The current lexeme consists of the bytes passed. -/
lemma bytes_nextRaw (h : l.nextRaw.2 = .ok t) :
    l.nextRaw.1.current.bytes =
      Symbol.spell (l.cursor.rest.take (Scan.token l.lexicon l.cursor.rest).count) := by
  simp only [nextRaw] at h ⊢
  split
  · next hfault =>
    rw [hfault] at h
    cases h
  · rfl

/-- A request decodes on from where the cursor stands. -/
lemma at_nextRaw (h : l.cursor.At window offset cs rest) :
    ∃ ds rest', l.nextRaw.1.cursor.At window offset (cs ++ ds) rest' ∧
      ∀ t, l.nextRaw.2 = .ok t → rest = l.nextRaw.1.current.bytes ++ rest' := by
  obtain ⟨rest', hrest, hat⟩ := h.advance (Scan.sound_token l.lexicon l.cursor.rest).wellFormed
  refine ⟨_, rest', cursor_nextRaw l ▸ hat, ?_⟩
  intro t ht
  rw [bytes_nextRaw ht]
  exact hrest

/-- At the end of the window there is the end token, and the lexer stays there. -/
lemma nextRaw_nil (h : l.cursor.rest = []) :
    l.nextRaw.2 = .ok .eof ∧ l.nextRaw.1.cursor = l.cursor ∧ l.nextRaw.1.current.bytes = [] := by
  have hcursor : l.cursor.advance 0 = l.cursor := rfl
  simp [nextRaw, h, Scan.token, Scan.done, hcursor]

/-! ### Any number of requests -/

/-- The lexer after some requests for raw tokens. The next request is answered by `nextRaw`. -/
def afterRaw (l : Lexer) : Nat → Lexer
  | 0 => l
  | n + 1 => (l.afterRaw n).nextRaw.1

/-- What holds of the raw tokens of a lexer that reads a window, which starts at an offset. -/
structure Tiles (l : Lexer) (offset : Nat) (window : List UInt8) : Prop where
  /-- The cursor stays in the window. -/
  inside (n : Nat) :
    offset ≤ (l.afterRaw n).cursor.position ∧
      (l.afterRaw n).cursor.position ≤ offset + window.length
  /-- The range of a lexeme starts where the cursor stood before the request. -/
  starts (n : Nat) : (l.afterRaw (n + 1)).current.start = (l.afterRaw n).cursor.position
  /-- The range of a token ends where the cursor stands after the request. -/
  stops (n : Nat) (t : Token) (ht : (l.afterRaw n).nextRaw.2 = .ok t) :
    (l.afterRaw (n + 1)).current.stop = (l.afterRaw (n + 1)).cursor.position
  /-- The ranges of two tokens in a row abut. -/
  abuts (n : Nat) (t u : Token) (ht : (l.afterRaw n).nextRaw.2 = .ok t)
    (hu : (l.afterRaw (n + 1)).nextRaw.2 = .ok u) :
    (l.afterRaw (n + 2)).current.start = (l.afterRaw (n + 1)).current.stop
  /-- The lexemes up to the first error are the bytes passed. -/
  covers (n : Nat) (hok : ∀ i < n, ∃ t, (l.afterRaw i).nextRaw.2 = .ok t) :
    ((List.range n).flatMap fun i => (l.afterRaw (i + 1)).current.bytes) =
      window.take ((l.afterRaw n).cursor.position - offset)
  /-- A token before the end of the window takes a byte at least. -/
  progresses (n : Nat) (t : Token) (ht : (l.afterRaw n).nextRaw.2 = .ok t)
    (hn : (l.afterRaw n).cursor.position ≠ offset + window.length) :
    (l.afterRaw n).cursor.position < (l.afterRaw (n + 1)).cursor.position
  /-- At the end of the window there is nothing but the end token for good. -/
  ends (n : Nat) (hn : (l.afterRaw n).cursor.position = offset + window.length) (m : Nat)
    (hm : n ≤ m) :
    (l.afterRaw m).nextRaw.2 = .ok .eof ∧
      (l.afterRaw (m + 1)).current.start = offset + window.length ∧
      (l.afterRaw (m + 1)).current.stop = offset + window.length
  /-- The location of a lexeme counts the code points before it, as decoding the window from its
  start gives them. Neither part exceeds the size of the window by more than one. -/
  located (n : Nat) :
    ∃ cs, CodePoint.Decodes window cs
        (window.drop ((l.afterRaw (n + 1)).current.start - offset)) ∧
      (l.afterRaw (n + 1)).current.location = .after cs ∧
      (Location.after cs).line ≤ window.length + 1 ∧
      (Location.after cs).column ≤ window.length + 1
  /-- After its first character a token of blanks, or a numeral, is passed byte by byte. -/
  bytewise (n : Nat) (v : Nat) (bs : List UInt8) (ss : List Symbol)
    (hrest : (l.afterRaw n).cursor.rest = .codePoint v bs :: ss)
    (hv : classOf v = .whitespace ∨ classOf v = .number ∧ v ≠ 0x27) :
    ((l.afterRaw n).cursor.advance 1).BytewiseTo (l.afterRaw (n + 1)).cursor
  /-- So is a quote after it, which makes an at sign a raw string. -/
  bytewise_quote (n : Nat)
    (hquote : ((l.afterRaw n).cursor.advance 1).byteAt? 0 = some 0x22) :
    ((l.afterRaw n).cursor.advance 1).advancePlain? = some ((l.afterRaw n).cursor.advance 2)

variable (hat : l.cursor.At window offset [] window)
include hat

/-- After any number of requests the cursor is at a place to which decoding leads. -/
lemma exists_at_afterRaw (n : Nat) :
    ∃ cs rest, (l.afterRaw n).cursor.At window offset cs rest := by
  induction n with
  | zero => exact ⟨[], window, hat⟩
  | succ n ih =>
    obtain ⟨cs, rest, h⟩ := ih
    obtain ⟨ds, rest', h', -⟩ := at_nextRaw h
    exact ⟨_, rest', h'⟩

/-- A token ends where the cursor then stands. -/
lemma stop_afterRaw {n : Nat} (ht : (l.afterRaw n).nextRaw.2 = .ok t) :
    (l.afterRaw (n + 1)).current.stop = (l.afterRaw (n + 1)).cursor.position := by
  obtain ⟨cs, rest, h⟩ := exists_at_afterRaw hat n
  obtain ⟨ds, rest', h', hbytes⟩ := at_nextRaw h
  have hlen := congrArg List.length (hbytes t ht)
  have hpos := h.position
  have hpos' := h'.position
  rw [List.length_append] at hlen
  rw [Lexeme.stop, afterRaw, (start_nextRaw _).1]
  omega

lemma covers_afterRaw (n : Nat) (hok : ∀ i < n, ∃ t, (l.afterRaw i).nextRaw.2 = .ok t) :
    ((List.range n).flatMap fun i => (l.afterRaw (i + 1)).current.bytes) =
      window.take ((l.afterRaw n).cursor.position - offset) := by
  induction n with
  | zero =>
    have hpos := hat.position
    simp [afterRaw, show l.cursor.position - offset = 0 by omega]
  | succ n ih =>
    obtain ⟨t, ht⟩ := hok n (Nat.lt_succ_self n)
    obtain ⟨cs, rest, h⟩ := exists_at_afterRaw hat n
    obtain ⟨ds, rest', h', hbytes⟩ := at_nextRaw h
    have hboth := h'.take_append.trans h.take_append.symm
    rw [hbytes t ht, ← List.append_assoc] at hboth
    rw [List.range_succ, List.flatMap_append, ih fun i hi => hok i (Nat.lt_succ_of_lt hi),
      List.flatMap_singleton, afterRaw, List.append_cancel_right hboth]

lemma progresses_afterRaw {n : Nat} (ht : (l.afterRaw n).nextRaw.2 = .ok t)
    (hn : (l.afterRaw n).cursor.position ≠ offset + window.length) :
    (l.afterRaw n).cursor.position < (l.afterRaw (n + 1)).cursor.position := by
  obtain ⟨cs, rest, h⟩ := exists_at_afterRaw hat n
  obtain ⟨ds, rest', h', hbytes⟩ := at_nextRaw h
  have hne : (l.afterRaw n).cursor.rest ≠ [] := by
    rw [h.symbols]
    intro hnil
    have hspell := Symbol.spell_decode rest
    rw [hnil] at hspell
    exact hn (h.rest_eq_nil_iff.1 hspell.symm)
  have hless := remaining_nextRaw (Prod.ext rfl ht) (.inr hne)
  have hpos := h.position
  have hpos' := h'.position
  have hsplit := hbytes t ht
  have hlen := congrArg List.length hsplit
  rw [List.length_append] at hlen
  -- Had the lexeme no bytes, as many symbols would be left as before.
  have hbytes_ne : (l.afterRaw n).nextRaw.1.current.bytes ≠ [] := by
    intro hnil
    rw [hnil, List.nil_append] at hsplit
    rw [remaining, remaining, h.symbols, h'.symbols, hsplit] at hless
    exact Nat.lt_irrefl _ hless
  have := List.length_pos_iff.2 hbytes_ne
  rw [afterRaw]
  omega

/-- Once a lexer stands at the end of its window, it stays there. -/
lemma ends_afterRaw {n m : Nat}
    (hn : (l.afterRaw n).cursor.position = offset + window.length) (hm : n ≤ m) :
    (l.afterRaw m).cursor.rest = [] ∧ (l.afterRaw m).cursor.position = offset + window.length := by
  induction hm with
  | refl =>
    obtain ⟨cs, rest, h⟩ := exists_at_afterRaw hat n
    refine ⟨?_, hn⟩
    rw [h.symbols, h.rest_eq_nil_iff.2 hn, Symbol.decode_nil]
  | step _ ih =>
    obtain ⟨-, hcursor, -⟩ := nextRaw_nil ih.1
    rw [afterRaw, hcursor]
    exact ih

lemma located_afterRaw (n : Nat) :
    ∃ cs, CodePoint.Decodes window cs
        (window.drop ((l.afterRaw (n + 1)).current.start - offset)) ∧
      (l.afterRaw (n + 1)).current.location = .after cs ∧
      (Location.after cs).line ≤ window.length + 1 ∧
      (Location.after cs).column ≤ window.length + 1 := by
  obtain ⟨cs, rest, h⟩ := exists_at_afterRaw hat n
  obtain ⟨hstart, hlocation⟩ := start_nextRaw (l.afterRaw n)
  have hlen := h.decodes.length_le
  obtain ⟨hline, hcolumn⟩ := Location.after_le cs
  rw [afterRaw, hstart, hlocation]
  exact ⟨cs, h.rest_eq ▸ h.decodes, h.location, by omega, by omega⟩

/-- After any number of requests and symbols the cursor sees symbols that bytes decode to. -/
lemma exists_decode_afterRaw (n k : Nat) :
    ∃ bytes, ((l.afterRaw n).cursor.advance k).rest = Symbol.decode bytes := by
  obtain ⟨cs, rest, h⟩ := exists_at_afterRaw hat n
  obtain ⟨bytes, -, hdrop⟩ := Symbol.drop_decode k rest
  exact ⟨bytes, (congrArg (List.drop k) h.symbols).trans hdrop⟩

lemma bytewise_afterRaw {n v : Nat} {bs : List UInt8} {ss : List Symbol}
    (hrest : (l.afterRaw n).cursor.rest = .codePoint v bs :: ss)
    (hv : classOf v = .whitespace ∨ classOf v = .number ∧ v ≠ 0x27) :
    ((l.afterRaw n).cursor.advance 1).BytewiseTo (l.afterRaw (n + 1)).cursor := by
  obtain ⟨bytes, hdecode⟩ := exists_decode_afterRaw hat n 1
  have htail : ((l.afterRaw n).cursor.advance 1).rest = ss := congrArg (List.drop 1) hrest
  have hplain : ∀ s ∈ ss.take (Scan.tail (l.afterRaw n).lexicon (.codePoint v bs) v ss).count,
      s.isPlain := by
    intro s hs
    rcases hv with hblank | ⟨hnumber, hquote⟩
    · simp only [Scan.tail, hblank] at hs
      exact Scan.isPlain_of_mem_blanks hs
    · simp only [Scan.tail, hnumber, if_neg hquote] at hs
      exact Scan.isPlain_of_mem_numeral hs
  have hbytewise := Cursor.bytewiseTo_advance hdecode (by rwa [htail])
  rw [Cursor.advance_advance] at hbytewise
  rw [afterRaw, cursor_nextRaw, hrest]
  exact hbytewise

lemma bytewise_quote_afterRaw {n : Nat}
    (hquote : ((l.afterRaw n).cursor.advance 1).byteAt? 0 = some 0x22) :
    ((l.afterRaw n).cursor.advance 1).advancePlain? = some ((l.afterRaw n).cursor.advance 2) := by
  obtain ⟨bytes, hdecode⟩ := exists_decode_afterRaw hat n 1
  have hpeek := Cursor.bind_single?_peek? hdecode
  rw [hquote] at hpeek
  obtain ⟨s, hs, hsingle⟩ := Option.bind_eq_some_iff.1 (hpeek.trans rfl)
  have hstep := Cursor.advancePlain?_eq_some hdecode hs
    (Symbol.isPlain_of_single? hsingle (by decide))
  rwa [Cursor.advance_advance] at hstep

end Lexer

/-- The raw tokens of every window tile it, up to the first error or the end, and their locations
count what stands before them. -/
theorem raw_tokens_tile (lexicon : Lexicon) (buffer : List UInt8) (offset size : Nat) :
    (Lexer.ofWindow lexicon buffer offset size).Tiles (min offset buffer.length)
      (Cursor.window buffer offset size) := by
  set l := Lexer.ofWindow lexicon buffer offset size
  have hat : l.cursor.At (Cursor.window buffer offset size) (min offset buffer.length) []
      (Cursor.window buffer offset size) := .ofWindow buffer offset size
  have hstarts (n : Nat) : (l.afterRaw (n + 1)).current.start = (l.afterRaw n).cursor.position :=
    (Lexer.start_nextRaw (l.afterRaw n)).1
  refine ⟨?_, hstarts, ?_, ?_, Lexer.covers_afterRaw hat, ?_, ?_, Lexer.located_afterRaw hat, ?_,
    ?_⟩
  · intro n
    obtain ⟨cs, rest, h⟩ := Lexer.exists_at_afterRaw hat n
    exact h.inside
  · intro n t ht
    exact Lexer.stop_afterRaw hat ht
  · intro n t u ht _
    exact (hstarts (n + 1)).trans (Lexer.stop_afterRaw hat ht).symm
  · intro n t ht hn
    exact Lexer.progresses_afterRaw hat ht hn
  · intro n hn m hm
    obtain ⟨hrest, hposition⟩ := Lexer.ends_afterRaw hat hn hm
    obtain ⟨heof, -, hbytes⟩ := Lexer.nextRaw_nil hrest
    have hstart := (hstarts m).trans hposition
    refine ⟨heof, hstart, ?_⟩
    rw [Lexeme.stop, hstart, Lexer.afterRaw, hbytes]
    rfl
  · intro n v bs ss hrest hv
    exact Lexer.bytewise_afterRaw hat hrest hv
  · intro n hquote
    exact Lexer.bytewise_quote_afterRaw hat hquote

end ScriptGraph
