import ScriptGraph.Text.CodePoint

/-!
# Standard UTF-8

Text as bytes and bytes as text. Unlike the codec of source texts, the standard form has at most
four bytes, no overlong forms and no surrogates. Reading is lossy: each maximal part of the bytes
that starts no well-formed sequence reads as one replacement character.
-/

namespace ScriptGraph.Utf8

/-- The bytes of a text. -/
def encode (s : String) : List UInt8 := s.toList.flatMap fun c => CodePoint.encode c.toNat

/-- The ranges that the bytes after a first byte must lie in, or nothing if no well-formed sequence
starts with that byte. -/
def tailRanges (first : UInt8) : Option (List (Nat × Nat)) :=
  let b := first.toNat
  let tail := (0x80, 0xBF)
  if b < 0x80 then some []
  else if b < 0xC2 then none
  else if b < 0xE0 then some [tail]
  else if b = 0xE0 then some [(0xA0, 0xBF), tail]
  else if b = 0xED then some [(0x80, 0x9F), tail]
  else if b < 0xF0 then some [tail, tail]
  else if b = 0xF0 then some [(0x90, 0xBF), tail, tail]
  else if b < 0xF4 then some [tail, tail, tail]
  else if b = 0xF4 then some [(0x80, 0x8F), tail, tail]
  else none

/-- The number of leading bytes that lie in their ranges. -/
def agreeing : List (Nat × Nat) → List UInt8 → Nat
  | (low, high) :: ranges, b :: bs =>
    if low ≤ b.toNat ∧ b.toNat ≤ high then agreeing ranges bs + 1 else 0
  | _, _ => 0

/-- The character that stands for an ill-formed part. -/
def replacement : Char := Char.ofNat 0xFFFD

/-- The character at the start of non-empty bytes and the number of bytes that it takes: a
well-formed sequence, or a maximal part of one, read as the replacement character. -/
def readChar (first : UInt8) (rest : List UInt8) : Char × Nat :=
  match tailRanges first with
  | none => (replacement, 1)
  | some ranges =>
    let n := agreeing ranges rest
    if n = ranges.length then
      match CodePoint.decode? (first :: rest) with
      | some (c, _) => (Char.ofNat c, n + 1)
      | none => (replacement, n + 1)
    else (replacement, n + 1)

/-- The characters of the bytes after the first `skip` of them. -/
def decodeFrom (skip : Nat) : List UInt8 → List Char
  | [] => []
  | b :: bs =>
    match skip with
    | k + 1 => decodeFrom k bs
    | 0 =>
      let (c, n) := readChar b bs
      c :: decodeFrom (n - 1) bs

/-- The text of the bytes, with replacement characters for ill-formed parts. -/
def decode (bytes : List UInt8) : String := String.ofList (decodeFrom 0 bytes)

end ScriptGraph.Utf8
