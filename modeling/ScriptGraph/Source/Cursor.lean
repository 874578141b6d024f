import ScriptGraph.Source.Symbol

/-!
# Cursors

A cursor reads the symbols of a window of a buffer from left to right and keeps its position in the
whole buffer and its location in the window. The symbols are those of the bytes that the buffer has
between the position and the end of the window, and what is looked up ahead is read there.
-/

namespace ScriptGraph

/-- A place in a source text. -/
structure Cursor where
  /-- The symbols still to read. -/
  rest : List Symbol
  /-- The offset in the buffer. -/
  position : Nat
  /-- The line and column in the window. -/
  location : Location

namespace Cursor

/-- The bytes of a window of a buffer; what lies beyond the buffer is cut off. -/
def window (buffer : List UInt8) (offset size : Nat) : List UInt8 := (buffer.drop offset).take size

/-- A cursor at the start of a window. -/
def ofWindow (buffer : List UInt8) (offset size : Nat) : Cursor :=
  ⟨Symbol.decode (window buffer offset size), min offset buffer.length, .beginning⟩

/-- A cursor at the start of a buffer. -/
def ofBytes (buffer : List UInt8) : Cursor := ofWindow buffer 0 buffer.length

/-- Whether the whole window has been read. -/
def isAtEnd (c : Cursor) : Bool := c.rest.isEmpty

/-- The next symbol. -/
def peek? (c : Cursor) : Option Symbol := c.rest.head?

/-- The byte a number of bytes ahead. -/
def byteAt? (c : Cursor) (n : Nat) : Option UInt8 := (Symbol.spell c.rest)[n]?

/-- The cursor after a number of symbols. -/
def advance (c : Cursor) (n : Nat) : Cursor :=
  let passed := c.rest.take n
  ⟨c.rest.drop n, c.position + (Symbol.spell passed).length, passed.foldl Symbol.advance c.location⟩

/-- The cursor a byte and a column further on, if the next byte is an ASCII character other than a
line feed. Nothing is decoded to tell. -/
def advancePlain? (c : Cursor) : Option Cursor :=
  match c.byteAt? 0 with
  | some b =>
    if b.toNat < 0x80 ∧ b.toNat ≠ 0x0A then
      some ⟨Symbol.decode ((Symbol.spell c.rest).drop 1), c.position + 1, c.location.nextColumn⟩
    else none
  | none => none

/-- The next byte is a symbol of its own exactly if it is an ASCII character. -/
theorem bind_single?_peek? {c : Cursor} {bytes : List UInt8} (h : c.rest = Symbol.decode bytes) :
    c.peek?.bind Symbol.single? = (c.byteAt? 0).filter fun b => b.toNat < 0x80 := by
  rw [peek?, byteAt?, h, Symbol.spell_decode]
  cases bytes with
  | nil => rfl
  | cons b rest =>
    obtain ⟨hascii, hother⟩ := Symbol.decode_cons b rest
    by_cases hb : b.toNat < 0x80
    · simp [hascii hb, Symbol.single?, Option.filter_some, hb]
    · obtain ⟨s, ss, hdecode, hnone⟩ := hother (Nat.not_lt.1 hb)
      simp [hdecode, hnone, Option.filter_some, hb]

/-- A plain symbol is passed with its byte. -/
theorem advancePlain?_eq_some {c : Cursor} {bytes : List UInt8} {s : Symbol}
    (h : c.rest = Symbol.decode bytes) (hs : c.peek? = some s) (hplain : s.isPlain) :
    c.advancePlain? = some (c.advance 1) := by
  obtain ⟨b, hb, hne⟩ := (Option.any_eq_true _ _).1 hplain
  rw [peek?, h] at hs
  obtain ⟨rest, rfl, hascii, hdecode⟩ := Symbol.exists_of_single?_head? hs hb
  have hfeed : b.toNat ≠ 0x0A := fun hfeed => bne_iff_ne.1 hne (UInt8.toNat_inj.1 hfeed)
  have hspell : Symbol.spell c.rest = b :: rest := by rw [h, Symbol.spell_decode]
  have hbyte : c.byteAt? 0 = some b := congrArg (·[0]?) hspell
  have hadvance : c.advance 1 = ⟨Symbol.decode rest, c.position + 1, c.location.nextColumn⟩ := by
    simp only [advance, h, hdecode]
    exact congrArg (Cursor.mk _ _) (Location.advance_of_ne c.location hfeed)
  rw [advancePlain?, hbyte, hspell, hadvance]
  exact if_pos ⟨hascii, hfeed⟩

/-! ### What is read of a buffer -/

/-- The bytes of a buffer between two positions. -/
def slice (buffer : List UInt8) (start stop : Nat) : List UInt8 := (buffer.take stop).drop start

variable {buffer : List UInt8} {start stop : Nat} {c : Cursor}

/-- A window ends with the buffer at the latest. -/
theorem window_eq_slice (buffer : List UInt8) (offset size : Nat) :
    window buffer offset size =
      slice buffer (min offset buffer.length)
        (min (min offset buffer.length + size) buffer.length) := by
  rcases Nat.le_total offset buffer.length with h | h
  · rw [Nat.min_eq_left h, window, slice, List.drop_take, List.take_eq_take_iff, List.length_drop]
    omega
  · rw [Nat.min_eq_right h, window, slice, List.drop_eq_nil_of_le h, List.take_nil,
      List.drop_eq_nil_of_le (List.length_take_le' _ _)]

theorem length_slice (h : stop ≤ buffer.length) :
    (slice buffer start stop).length = stop - start := by
  rw [slice, List.length_drop, List.length_take_of_le h]

theorem getElem?_slice (k : Nat) :
    (slice buffer start stop)[k]? = if start + k < stop then buffer[start + k]? else none := by
  rw [slice, List.getElem?_drop, List.getElem?_take]

theorem drop_slice (n : Nat) :
    (slice buffer start stop).drop n = slice buffer (start + n) stop := by
  rw [slice, slice, List.drop_drop]

theorem take_slice {n : Nat} (h : start + n ≤ stop) :
    (slice buffer start stop).take n = slice buffer start (start + n) := by
  have hmin : min (start + n) stop = start + n := Nat.min_eq_left h
  rw [slice, slice, List.take_drop, List.take_take, hmin]

/-- Whether a cursor has the bytes left that a buffer has up to a stop. -/
structure Reads (buffer : List UInt8) (stop : Nat) (c : Cursor) : Prop where
  symbols : c.rest = Symbol.decode (slice buffer c.position stop)
  inside : c.position ≤ stop

theorem reads_ofWindow (buffer : List UInt8) (offset size : Nat) :
    (ofWindow buffer offset size).Reads buffer
      (min (min offset buffer.length + size) buffer.length) := by
  refine ⟨?_, ?_⟩
  · rw [ofWindow, window_eq_slice]
  · rw [ofWindow, Nat.le_min]
    exact ⟨Nat.le_add_right _ _, Nat.min_le_right _ _⟩

/-- The symbols that a cursor passes are those of the bytes between its positions. -/
theorem Reads.advance (hstop : stop ≤ buffer.length) (h : c.Reads buffer stop) (n : Nat) :
    (c.advance n).Reads buffer stop ∧
      Symbol.spell (c.rest.take n) = slice buffer c.position (c.advance n).position := by
  obtain ⟨rest, hrest, hdrop⟩ := Symbol.drop_decode n (slice buffer c.position stop)
  rw [← h.symbols] at hrest hdrop
  have hposition : (c.advance n).position = c.position + (Symbol.spell (c.rest.take n)).length :=
    rfl
  have hlength := congrArg List.length hrest
  rw [length_slice hstop, List.length_append] at hlength
  have hinside : (c.advance n).position ≤ stop := by
    have hle := h.inside
    omega
  refine ⟨⟨?_, hinside⟩, ?_⟩
  · rw [hposition, ← drop_slice, hrest, List.drop_left]
    exact hdrop
  · rw [hposition, ← take_slice (hposition ▸ hinside), hrest, List.take_left]

theorem advance_advance (c : Cursor) (m n : Nat) : (c.advance m).advance n = c.advance (m + n) := by
  simp only [advance, List.drop_drop, List.take_add, Symbol.spell_append, List.length_append,
    List.foldl_append, Nat.add_assoc]

/-- A cursor is at its end where it has come to the stop. -/
theorem Reads.isAtEnd_iff (hstop : stop ≤ buffer.length) (h : c.Reads buffer stop) :
    c.isAtEnd = true ↔ stop ≤ c.position := by
  have hnil : c.rest = [] ↔ slice buffer c.position stop = [] := by
    rw [h.symbols]
    constructor
    · intro hrest
      rw [← Symbol.spell_decode (slice buffer c.position stop), hrest, Symbol.spell_nil]
    · intro hslice
      rw [hslice, Symbol.decode_nil]
  rw [isAtEnd, List.isEmpty_iff, hnil, ← List.length_eq_zero_iff, length_slice hstop]
  exact Nat.sub_eq_zero_iff_le

/-- A byte ahead is the one that the buffer has there, up to the stop. -/
theorem Reads.byteAt? (h : c.Reads buffer stop) (k : Nat) :
    c.byteAt? k = if c.position + k < stop then buffer[c.position + k]? else none := by
  rw [Cursor.byteAt?, h.symbols, Symbol.spell_decode, getElem?_slice]

theorem Reads.peek? (h : c.Reads buffer stop) :
    c.peek? = (Symbol.decode (slice buffer c.position stop)).head? := by
  rw [Cursor.peek?, h.symbols]

end Cursor

end ScriptGraph
