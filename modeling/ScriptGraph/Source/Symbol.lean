import ScriptGraph.Location
import ScriptGraph.Text.CodePoint

/-!
# Source texts as symbols

The bytes of a source text are decoded once, from left to right, into symbols: a code point with the
bytes that spell it, or a byte at which decoding fails. Lexing works on symbols, so it never leaves
the boundaries of code points.
-/

namespace ScriptGraph

/-- One step of decoding. -/
inductive Symbol where
  /-- A code point and its bytes. -/
  | codePoint (value : Nat) (bytes : List UInt8)
  /-- A byte at which no sequence starts. -/
  | malformed (byte : UInt8)
deriving DecidableEq, Repr

namespace Symbol

/-- The bytes of a symbol. -/
def bytes : Symbol → List UInt8
  | codePoint _ bs => bs
  | malformed b => [b]

/-- The code point of a well-formed symbol. -/
def value? : Symbol → Option Nat
  | codePoint v _ => some v
  | malformed _ => none

/-- The only byte of a code point that takes just one. -/
def single? : Symbol → Option UInt8
  | codePoint _ [b] => some b
  | _ => none

/-- Whether the symbol is a single byte other than a line feed. -/
def isPlain (s : Symbol) : Bool := s.single?.any (· != 0x0A)

/-- Whether the symbol is the given code point. -/
def isValue (v : Nat) (s : Symbol) : Bool := s.value? == some v

/-- The symbols of the bytes after the first `skip` of them. -/
def decodeFrom (skip : Nat) : List UInt8 → List Symbol
  | [] => []
  | b :: bs =>
    match skip with
    | k + 1 => decodeFrom k bs
    | 0 =>
      match CodePoint.decode? (b :: bs) with
      | some (v, n) => codePoint v ((b :: bs).take n) :: decodeFrom (n - 1) bs
      | none => malformed b :: decodeFrom 0 bs

/-- The symbols of a source text. -/
def decode (bytes : List UInt8) : List Symbol := decodeFrom 0 bytes

/-- The bytes of a list of symbols. -/
def spell (symbols : List Symbol) : List UInt8 := symbols.flatMap bytes

/-- The character of a code point in its shortest form, if it is a Unicode scalar value. -/
def char? : Symbol → Option Char
  | codePoint v bs =>
    if v.isValidChar ∧ bs.length = CodePoint.encodedLength v then some (Char.ofNat v) else none
  | malformed _ => none

/-- The text that the symbols spell, if each of them is a character. -/
def text? (symbols : List Symbol) : Option String := (symbols.mapM char?).map String.ofList

/-- The location after a symbol; a malformed byte takes one column. -/
def advance (l : Location) : Symbol → Location
  | codePoint v _ => l.advance v
  | malformed _ => l.nextColumn

/-! ### Decoding and spelling -/

@[simp] theorem spell_nil : spell [] = [] := rfl

@[simp] theorem spell_cons (s : Symbol) (symbols : List Symbol) :
    spell (s :: symbols) = s.bytes ++ spell symbols := rfl

@[simp] theorem spell_append (ss ts : List Symbol) : spell (ss ++ ts) = spell ss ++ spell ts :=
  List.flatMap_append

@[simp] theorem decode_nil : decode [] = [] := rfl

theorem decodeFrom_eq_decode_drop (skip : Nat) (bs : List UInt8) :
    decodeFrom skip bs = decode (bs.drop skip) := by
  induction bs generalizing skip with
  | nil => simp [decode, decodeFrom]
  | cons b bs ih =>
    cases skip with
    | zero => rfl
    | succ k => exact ih k

theorem decode_of_some {bs : List UInt8} {c n : Nat} (h : CodePoint.decode? bs = some (c, n)) :
    decode bs = .codePoint c (bs.take n) :: decode (bs.drop n) := by
  cases bs with
  | nil => cases h
  | cons b bs =>
    obtain ⟨hpos, -⟩ := CodePoint.length_of_decode? h
    obtain ⟨n, rfl⟩ := Nat.exists_eq_add_one_of_ne_zero (Nat.ne_of_gt hpos)
    rw [decode, decodeFrom]
    simp only [h, decodeFrom_eq_decode_drop]
    rfl

theorem decode_of_none {b : UInt8} {bs : List UInt8} (h : CodePoint.decode? (b :: bs) = none) :
    decode (b :: bs) = .malformed b :: decode bs := by
  rw [decode, decodeFrom]
  simp only [h]
  rfl

/-- The first symbol of a text is a byte of its own exactly if the text starts with ASCII. -/
theorem decode_cons (b : UInt8) (bs : List UInt8) :
    (b.toNat < 0x80 → decode (b :: bs) = codePoint b.toNat [b] :: decode bs) ∧
      (0x80 ≤ b.toNat → ∃ s ss, decode (b :: bs) = s :: ss ∧ s.single? = none) := by
  constructor
  · intro hb
    have hlen : CodePoint.sequenceLength b = 1 := CodePoint.sequenceLength_eq_one_iff.2 hb
    have hpayload : CodePoint.payload b = b.toNat := if_pos hlen
    have hdecode : CodePoint.decode? (b :: bs) = some (b.toNat, 1) :=
      CodePoint.decode?_eq_some_iff.2 ⟨b, [], bs, rfl, rfl, hlen, congrArg some hpayload⟩
    exact decode_of_some hdecode
  · intro hb
    cases hdecode : CodePoint.decode? (b :: bs) with
    | none => exact ⟨_, _, decode_of_none hdecode, rfl⟩
    | some r =>
      obtain ⟨v, n⟩ := r
      refine ⟨_, _, decode_of_some hdecode, ?_⟩
      obtain ⟨b', tail, rest, hbytes, rfl, hlen, -⟩ := CodePoint.decode?_eq_some_iff.1 hdecode
      obtain ⟨rfl, rfl⟩ := List.cons.inj hbytes
      cases tail with
      | nil => exact absurd (CodePoint.sequenceLength_eq_one_iff.1 hlen) (Nat.not_lt.2 hb)
      | cons t tail => rfl

theorem isPlain_of_single? {s : Symbol} {b : UInt8} (hb : s.single? = some b) (hfeed : b ≠ 0x0A) :
    s.isPlain := by
  rw [isPlain, hb]
  exact bne_iff_ne.2 hfeed

/-- A first symbol of a single byte is the first byte of the text. -/
theorem exists_of_single?_head? {bytes : List UInt8} {s : Symbol} {b : UInt8}
    (hs : (decode bytes).head? = some s) (hb : s.single? = some b) :
    ∃ rest, bytes = b :: rest ∧ b.toNat < 0x80 ∧
      decode bytes = codePoint b.toNat [b] :: decode rest := by
  cases bytes with
  | nil => cases hs
  | cons a rest =>
    obtain ⟨hascii, hother⟩ := decode_cons a rest
    by_cases ha : a.toNat < 0x80
    · rw [hascii ha] at hs
      cases hs
      cases hb
      exact ⟨rest, rfl, ha, hascii ha⟩
    · obtain ⟨s', ss, hdecode, hnone⟩ := hother (Nat.not_lt.1 ha)
      rw [hdecode] at hs
      cases hs
      rw [hnone] at hb
      cases hb

/-- The symbols of a text spell it. -/
@[simp] theorem spell_decode (bs : List UInt8) : spell (decode bs) = bs := by
  induction hn : bs.length using Nat.strongRecOn generalizing bs with
  | ind n ih =>
    cases bs with
    | nil => rfl
    | cons b bs =>
      cases h : CodePoint.decode? (b :: bs) with
      | none =>
        rw [decode_of_none h, spell, List.flatMap_cons]
        exact congrArg (b :: ·) (ih bs.length (by simp at hn; omega) bs rfl)
      | some r =>
        obtain ⟨c, k⟩ := r
        obtain ⟨hpos, hle⟩ := CodePoint.length_of_decode? h
        have hlen : ((b :: bs).drop k).length < n := by
          rw [List.length_drop]
          omega
        rw [decode_of_some h, spell, List.flatMap_cons]
        refine Eq.trans ?_ (List.take_append_drop k (b :: bs))
        exact congrArg ((b :: bs).take k ++ ·) (ih _ hlen _ rfl)

/-- After any number of symbols, also malformed ones, decoding goes on with the bytes left. -/
theorem drop_decode (n : Nat) (bs : List UInt8) :
    ∃ rest, bs = spell ((decode bs).take n) ++ rest ∧ (decode bs).drop n = decode rest := by
  induction n generalizing bs with
  | zero => exact ⟨bs, rfl, rfl⟩
  | succ n ih =>
    cases bs with
    | nil => exact ⟨[], rfl, rfl⟩
    | cons b bs =>
      cases h : CodePoint.decode? (b :: bs) with
      | none =>
        obtain ⟨rest, hrest, hdrop⟩ := ih bs
        rw [decode_of_none h]
        exact ⟨rest, congrArg (b :: ·) hrest, hdrop⟩
      | some r =>
        obtain ⟨c, k⟩ := r
        obtain ⟨rest, hrest, hdrop⟩ := ih ((b :: bs).drop k)
        rw [decode_of_some h]
        refine ⟨rest, ?_, hdrop⟩
        rw [List.take_succ_cons, spell_cons, List.append_assoc, ← hrest]
        exact (List.take_append_drop k (b :: bs)).symm

end Symbol

end ScriptGraph
