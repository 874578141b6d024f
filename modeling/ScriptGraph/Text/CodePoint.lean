/-!
# Code points and their bytes

The codec of source texts: sequences of one to six bytes for code points below `2 ^ 31`. The check
of a sequence is structural only, so overlong forms, surrogates and values beyond `U+10FFFF` decode
like any other.
-/

namespace ScriptGraph.CodePoint

/-! ### Decoding -/

/-- The length of the sequence that a first byte announces, or zero if no sequence starts with
it. -/
def sequenceLength (first : UInt8) : Nat :=
  let b := first.toNat
  if b < 0x80 then 1
  else if b < 0xC0 then 0
  else if b < 0xE0 then 2
  else if b < 0xF0 then 3
  else if b < 0xF8 then 4
  else if b < 0xFC then 5
  else if b < 0xFE then 6
  else 0

/-- Whether a byte continues a sequence. -/
def isContinuation (b : UInt8) : Bool := 0x80 ≤ b.toNat && b.toNat < 0xC0

/-- Extends a code point by the six payload bits of each continuation byte; none of the bytes may
be of another kind. -/
def extend? (codePoint : Nat) : List UInt8 → Option Nat
  | [] => some codePoint
  | b :: bs => if isContinuation b then extend? (codePoint * 64 + b.toNat % 64) bs else none

/-- The code point at the start of the bytes and the length of its sequence, or nothing if the
bytes are empty or start with a malformed or truncated sequence. The first byte of a sequence of
`n ≥ 2` bytes carries `7 - n` payload bits. -/
def decode? : List UInt8 → Option (Nat × Nat)
  | [] => none
  | b :: bs =>
    match sequenceLength b with
    | 0 => none
    | 1 => some (b.toNat, 1)
    | n + 1 =>
      let tail := bs.take n
      if tail.length < n then none
      else (extend? (b.toNat % Nat.pow 2 (6 - n)) tail).map fun c => (c, n + 1)

/-! ### Sequences -/

/-- A sequence of one byte is an ASCII character. -/
theorem sequenceLength_eq_one_iff {b : UInt8} : sequenceLength b = 1 ↔ b.toNat < 0x80 := by
  constructor
  · intro h
    simp only [sequenceLength] at h
    repeat' split at h
    all_goals omega
  · intro h
    exact if_pos h

/-- The payload of the first byte of a sequence. -/
def payload (b : UInt8) : Nat :=
  if sequenceLength b = 1 then b.toNat else b.toNat % Nat.pow 2 (7 - sequenceLength b)

/-- A code point is decoded from a first byte and as many continuation bytes as that announces. -/
theorem decode?_eq_some_iff {bs : List UInt8} {c n : Nat} :
    decode? bs = some (c, n) ↔
      ∃ b tail rest, bs = b :: (tail ++ rest) ∧ n = tail.length + 1 ∧ sequenceLength b = n ∧
        extend? (payload b) tail = some c := by
  constructor
  · intro h
    cases bs with
    | nil => cases h
    | cons b bs =>
      simp only [decode?] at h
      split at h
      · cases h
      · next hlen =>
        cases h
        exact ⟨b, [], bs, rfl, rfl, hlen, by simp [payload, hlen, extend?]⟩
      · next n' hn hlen =>
        split at h
        · cases h
        · next htail =>
          obtain ⟨v, hv, heq⟩ := Option.map_eq_some_iff.1 h
          cases heq
          have htake : (bs.take n').length = n' :=
            Nat.le_antisymm (List.length_take_le _ _) (Nat.not_lt.1 htail)
          have hne : n' + 1 ≠ 1 := fun h1 => hn (Nat.succ.inj h1)
          refine ⟨b, bs.take n', bs.drop n', by rw [List.take_append_drop], by rw [htake], hlen, ?_⟩
          rwa [payload, hlen, if_neg hne, Nat.add_sub_add_right 6 1 n']
  · rintro ⟨b, tail, rest, rfl, rfl, hlen, hc⟩
    rw [decode?]
    split
    · next h0 =>
      rw [h0] at hlen
      cases hlen
    · next h1 =>
      have htail : tail = [] := List.length_eq_zero_iff.1 (by omega)
      subst htail
      rw [payload, if_pos h1] at hc
      cases hc
      rfl
    · next n' hn h =>
      have hn' : tail.length = n' := Nat.succ.inj (hlen.symm.trans h)
      subst hn'
      have hne : tail.length + 1 ≠ 1 := fun h1 => hn (Nat.succ.inj h1)
      rw [payload, hlen, if_neg hne] at hc
      have hexp : 6 - tail.length = 7 - (tail.length + 1) := by omega
      simp only [List.take_left', hexp, hc, Nat.lt_irrefl, if_false, Option.map_some]

/-- A code point takes at least one byte and no more than there are. -/
theorem length_of_decode? {bs : List UInt8} {c n : Nat} (h : decode? bs = some (c, n)) :
    0 < n ∧ n ≤ bs.length := by
  obtain ⟨b, tail, rest, rfl, rfl, -, -⟩ := decode?_eq_some_iff.1 h
  simp

/-- What follows a sequence does not count. -/
theorem decode?_take_append {bs : List UInt8} {c n : Nat} (h : decode? bs = some (c, n))
    (rest : List UInt8) : decode? (bs.take n ++ rest) = some (c, n) := by
  obtain ⟨b, tail, rest', rfl, rfl, hlen, hc⟩ := decode?_eq_some_iff.1 h
  exact decode?_eq_some_iff.2 ⟨b, tail, rest, by simp, rfl, hlen, hc⟩

/-! ### Encoding -/

/-- The number of bytes of the shortest sequence for a code point, or zero if there is none. -/
def encodedLength (codePoint : Nat) : Nat :=
  if codePoint < 0x80 then 1
  else if codePoint < 0x800 then 2
  else if codePoint < 0x10000 then 3
  else if codePoint < 0x200000 then 4
  else if codePoint < 0x4000000 then 5
  else if codePoint < 0x80000000 then 6
  else 0

/-- The continuation bytes for the `n` lowest groups of six bits, the highest group first. -/
def continuations : Nat → Nat → List UInt8
  | 0, _ => []
  | n + 1, codePoint => continuations n (codePoint / 64) ++ [UInt8.ofNat (0x80 + codePoint % 64)]

/-- The shortest sequence for a code point, empty if there is none. -/
def encode (codePoint : Nat) : List UInt8 :=
  match encodedLength codePoint with
  | 0 => []
  | 1 => [UInt8.ofNat codePoint]
  | n + 1 =>
    UInt8.ofNat (256 - Nat.pow 2 (7 - n) + codePoint / Nat.pow 64 n) :: continuations n codePoint

@[simp] theorem length_continuations (n c : Nat) : (continuations n c).length = n := by
  induction n generalizing c with
  | zero => rfl
  | succ n ih => simp [continuations, ih]

/-- A code point takes as many bytes as its encoded length says. -/
theorem length_encode (c : Nat) : (encode c).length = encodedLength c := by
  unfold encode
  split <;> simp_all

end ScriptGraph.CodePoint
