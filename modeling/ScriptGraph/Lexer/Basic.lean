import ScriptGraph.Error
import ScriptGraph.Lexeme
import ScriptGraph.Lexer.Breaks
import ScriptGraph.Lexer.Scan
import ScriptGraph.Source.Cursor

/-!
# The lexer

A lexer yields one token at a time: the next of any kind, or the next one that matters to the
parser. At the end it yields the token that says so, again and again. After an error the lexeme is
empty and lexing may go on where the scan stopped.
-/

namespace ScriptGraph

/-- A lexer and its current lexeme. -/
structure Lexer where
  lexicon : Lexicon
  cursor : Cursor
  current : Lexeme
  breaks : Breaks := {}

namespace Lexer

/-- A lexer at a cursor, before any token. -/
def ofCursor (lexicon : Lexicon) (cursor : Cursor) : Lexer :=
  { lexicon, cursor, current := ⟨.eof, cursor.position, [], cursor.location⟩ }

/-- A lexer of a whole buffer. -/
def ofBytes (lexicon : Lexicon) (buffer : List UInt8) : Lexer :=
  ofCursor lexicon (.ofBytes buffer)

/-- A lexer of a window of a buffer. -/
def ofWindow (lexicon : Lexicon) (buffer : List UInt8) (offset size : Nat) : Lexer :=
  ofCursor lexicon (.ofWindow buffer offset size)

/-- A fault of a scan at a location. -/
def errorAt (location : Location) : ScanFault → Error
  | .malformed => .decode location
  | .unexpected expectation got => .unexpected location expectation got

/-- The next token of any kind. -/
def nextRaw (l : Lexer) : Lexer × Except Error Token :=
  let scan := Scan.token l.lexicon l.cursor.rest
  let cursor := l.cursor.advance scan.count
  let lexeme : Lexeme := ⟨l.current.token, l.cursor.position, [], l.cursor.location⟩
  match scan.outcome with
  | .error fault =>
    ({ l with cursor, current := lexeme }, .error (errorAt cursor.location fault))
  | .ok token =>
    let bytes := Symbol.spell (l.cursor.rest.take scan.count)
    ({ l with cursor, current := { lexeme with token, bytes } }, .ok token)

/-- The number of symbols still to read. -/
def remaining (l : Lexer) : Nat := l.cursor.rest.length

/-- A token before the end takes at least one symbol. -/
theorem remaining_nextRaw {l l' : Lexer} {t : Token} (h : l.nextRaw = (l', .ok t))
    (ht : t ≠ .eof ∨ l.cursor.rest ≠ []) : l'.remaining < l.remaining := by
  simp only [nextRaw] at h
  split at h
  · simp at h
  · next token hok =>
    simp only [Prod.mk.injEq, Except.ok.injEq] at h
    obtain ⟨rfl, rfl⟩ := h
    have hne : l.cursor.rest ≠ [] := by
      rintro hnil
      rcases ht with ht | ht
      · simp [hnil, Scan.token, Scan.done] at hok
        exact ht hok.symm
      · exact ht hnil
    have hpos := Scan.count_token_pos hok hne
    have hlen := List.length_pos_iff.2 hne
    simp only [remaining, Cursor.advance, List.length_drop]
    omega

/-- The next token that matters to the parser. -/
def next (l : Lexer) : Lexer × Except Error Token :=
  match _h : l.nextRaw with
  | (l', .error e) => (l', .error e)
  | (l', .ok t) =>
    match _ha : l'.breaks.sift l'.lexicon t with
    | (breaks, true) => ({ l' with breaks }, .ok t)
    | (breaks, false) => next { l' with breaks }
termination_by l.remaining
decreasing_by
  have ht : t ≠ .eof := by rintro rfl; simpa using congrArg Prod.snd _ha
  show l'.remaining < l.remaining
  exact remaining_nextRaw _h (.inl ht)

end Lexer

end ScriptGraph
