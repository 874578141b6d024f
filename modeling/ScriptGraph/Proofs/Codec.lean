import Mathlib.Tactic.Ring
import ScriptGraph.Proofs.Encoding

/-!
# Encoding and decoding

Encoding writes a code point into a buffer of six bytes, from the last byte of its sequence to the
first. Decoding inverts this, whatever comes after the sequence and whatever the buffer held before,
so a text made of encoded code points is decoded into just these. The other way round, encoding
inverts the decoding of a sequence exactly if the sequence is the shortest one of its code point.
-/

namespace ScriptGraph

namespace CodePoint

/-! ### Buffers -/

/-- A buffer that has room for any sequence. -/
abbrev Buffer : Type := Vector UInt8 6

/-- Writes the `n` lowest groups of six bits as continuation bytes at the places `n` to `1`, in this
order, and yields what is left of the code point. -/
def fill : Nat → Nat → Buffer → Nat × Buffer
  | 0, v, buffer => (v, buffer)
  | n + 1, v, buffer =>
    fill n (v / 64) (buffer.setIfInBounds (n + 1) (UInt8.ofNat (0x80 + v % 64)))

/-- Writes the shortest sequence of a code point at the start of a buffer, if there is one, and
yields its length. -/
def encodeInto (v : Nat) (buffer : Buffer) : Nat × Buffer :=
  match encodedLength v with
  | 0 => (0, buffer)
  | 1 => (1, buffer.setIfInBounds 0 (UInt8.ofNat v))
  | n + 1 =>
    let filled := fill n v buffer
    (n + 1, filled.2.setIfInBounds 0 (UInt8.ofNat (256 - Nat.pow 2 (7 - n) + filled.1)))

/-- The bytes that the encoding of a code point leaves at the start of a buffer. -/
def written (v : Nat) (buffer : Buffer) : List UInt8 :=
  (encodeInto v buffer).2.toList.take (encodeInto v buffer).1

/-- Filling a buffer leaves the first byte and those after the continuation bytes as they were. -/
lemma fill_eq (n v : Nat) (buffer : Buffer) (hn : n < 6) :
    (fill n v buffer).1 = v / 64 ^ n ∧
      (fill n v buffer).2.toList =
        buffer.toList.take 1 ++ continuations n v ++ buffer.toList.drop (n + 1) := by
  induction n generalizing v buffer with
  | zero =>
    refine ⟨(Nat.div_one v).symm, ?_⟩
    rw [continuations, List.append_nil]
    exact (List.take_append_drop 1 buffer.toList).symm
  | succ n ih =>
    obtain ⟨hhigh, hbytes⟩ := ih (v / 64)
      (buffer.setIfInBounds (n + 1) (UInt8.ofNat (0x80 + v % 64))) (by omega)
    rw [fill, hhigh, hbytes, Nat.div_div_eq_div_mul, Nat.pow_succ']
    refine ⟨rfl, ?_⟩
    have hset : (buffer.toList.set (n + 1) (UInt8.ofNat (0x80 + v % 64))).drop (n + 1) =
        UInt8.ofNat (0x80 + v % 64) :: buffer.toList.drop (n + 1 + 1) := by
      rw [List.set_eq_take_append_cons_drop, if_pos (by simpa using hn), List.drop_left']
      simp
      omega
    rw [Vector.toList_setIfInBounds, List.take_set_of_le (by omega), hset, continuations]
    simp

lemma encodedLength_le_six (v : Nat) : encodedLength v ≤ 6 := by
  unfold encodedLength
  split_ifs <;> omega

/-- Encoding writes the sequence of a code point over the start of the buffer, and nothing else. -/
lemma encodeInto_eq (v : Nat) (buffer : Buffer) :
    (encodeInto v buffer).1 = encodedLength v ∧
      (encodeInto v buffer).2.toList = encode v ++ buffer.toList.drop (encodedLength v) := by
  have hset (b : UInt8) (bs : List UInt8) : bs.take 1 ≠ [] → bs.set 0 b = b :: bs.drop 1 := by
    cases bs <;> simp
  unfold encodeInto encode
  split
  · next h => simp [h]
  · next h =>
    rw [h, Vector.toList_setIfInBounds, hset _ _ (by simp)]
    simp
  · next n hn h =>
    have hle := encodedLength_le_six v
    obtain ⟨hhigh, hbytes⟩ := fill_eq n v buffer (by omega)
    refine ⟨h.symm, ?_⟩
    rw [h, Vector.toList_setIfInBounds, hhigh, hbytes, hset _ _ (by simp)]
    simp

/-- What encoding leaves in a buffer is the sequence of the code point. -/
lemma written_eq_encode (v : Nat) (buffer : Buffer) : written v buffer = encode v := by
  obtain ⟨hlen, hbytes⟩ := encodeInto_eq v buffer
  rw [written, hlen, hbytes, List.take_left' (length_encode v)]

/-! ### Decoding what has been encoded -/

/-- Continuation bytes extend a code point by the groups that they were made of. -/
lemma extend?_continuations (n v c : Nat) (tail : List UInt8) :
    extend? c (continuations n v ++ tail) = extend? (c * 64 ^ n + v % 64 ^ n) tail := by
  induction n generalizing v tail with
  | zero => simp [continuations, Nat.mod_one]
  | succ n ih =>
    have hbyte : (UInt8.ofNat (0x80 + v % 64)).toNat = 0x80 + v % 64 :=
      UInt8.toNat_ofNat_of_lt' (show _ < 256 by omega)
    have hcontinues : isContinuation (UInt8.ofNat (0x80 + v % 64)) = true := by
      rw [isContinuation_iff, hbyte]
      omega
    have hgroup : (0x80 + v % 64) % 64 = v % 64 := by omega
    have hvalue : (c * 64 ^ n + v / 64 % 64 ^ n) * 64 + v % 64 =
        c * 64 ^ (n + 1) + v % 64 ^ (n + 1) := by
      rw [Nat.pow_succ', Nat.mod_mul]
      ring
    rw [continuations, List.append_assoc, ih, List.singleton_append, extend?, if_pos hcontinues,
      hbyte, hgroup, hvalue]

/-- The first bytes of the sequences of `n + 1` bytes follow one another. -/
lemma sequenceLength_ofNat : ∀ n < 6, 0 < n →
    ∀ b < 256 - 2 ^ (6 - n), 256 - 2 ^ (7 - n) ≤ b → sequenceLength (UInt8.ofNat b) = n + 1 := by
  decide +kernel

/-- A first byte that is made for a length and a payload has both. -/
lemma sequenceLength_first {n p : Nat} (hpos : 0 < n) (hle : n ≤ 5) (hp : p < 2 ^ (6 - n)) :
    sequenceLength (UInt8.ofNat (256 - 2 ^ (7 - n) + p)) = n + 1 ∧
      payload (UInt8.ofNat (256 - 2 ^ (7 - n) + p)) = p := by
  have hpow : 2 ^ (7 - n) = 2 ^ (6 - n) * 2 := by
    rw [← Nat.pow_succ]
    congr 1
    omega
  have hroom : 2 ^ (7 - n) ≤ 2 ^ 7 := Nat.pow_le_pow_right (by decide) (by omega)
  have hbyte : (UInt8.ofNat (256 - 2 ^ (7 - n) + p)).toNat = 256 - 2 ^ (7 - n) + p :=
    UInt8.toNat_ofNat_of_lt' (show _ < 256 by omega)
  have hlen := sequenceLength_ofNat n (by omega) hpos (256 - 2 ^ (7 - n) + p) (by omega) (by omega)
  refine ⟨hlen, ?_⟩
  rw [payload, hlen, if_neg (by omega), hbyte]
  have hdvd : 2 ^ (6 - n) ∣ 256 - 2 ^ (7 - n) :=
    Nat.dvd_sub (Nat.pow_dvd_pow 2 (show 6 - n ≤ 8 by omega)) ⟨2, hpow⟩
  obtain ⟨k, hk⟩ := hdvd
  show (256 - 2 ^ (7 - n) + p) % 2 ^ (7 - (n + 1)) = p
  rw [show 7 - (n + 1) = 6 - n by omega, hk, Nat.mul_add_mod, Nat.mod_eq_of_lt hp]

/-- An encoded code point is decoded again, whatever follows it. -/
lemma decode?_encode_append {v : Nat} (hv : v < 0x80000000) (rest : List UInt8) :
    decode? (encode v ++ rest) = some (v, encodedLength v) := by
  have hlen := encodedLength_pos_iff.2 hv
  rw [decode?_eq_some_iff]
  unfold encode
  split
  · omega
  · next h =>
    have hlt := encodedLength_eq_one_iff.1 h
    have hbyte : (UInt8.ofNat v).toNat = v :=
      UInt8.toNat_ofNat_of_lt' (Nat.lt_trans hlt (by decide))
    have hone : sequenceLength (UInt8.ofNat v) = 1 := by
      unfold sequenceLength
      simp only [hbyte]
      rw [if_pos hlt]
    refine ⟨UInt8.ofNat v, [], rest, rfl, h, hone.trans h.symm, ?_⟩
    simp [payload, hone, hbyte, extend?]
  · next n hn h =>
    have hpos : 0 < n := Nat.pos_of_ne_zero hn
    have hsix := encodedLength_le_six v
    have hle : n ≤ 5 := by omega
    have hhigh : v / 64 ^ n < 2 ^ (6 - n) := by
      rw [Nat.div_lt_iff_lt_mul (Nat.pow_pos (by decide))]
      exact ((encodedLength_le_iff hpos hle).1 (Nat.le_of_eq h)).resolve_right (by omega)
    obtain ⟨hfirst, hpayload⟩ := sequenceLength_first hpos hle hhigh
    refine ⟨_, continuations n v, rest, rfl, ?_, hfirst.trans h.symm, ?_⟩
    · rw [length_continuations, h]
    · have hextend := extend?_continuations n v (v / 64 ^ n) []
      rw [List.append_nil, Nat.div_add_mod'] at hextend
      rw [← hpayload] at hextend
      exact hextend

/-- A text of encoded code points is decoded into them, up to its end. -/
lemma decodes_encode {cs : List Nat} (hcs : ∀ c ∈ cs, c < 0x80000000) (rest : List UInt8) :
    Decodes (cs.flatMap encode ++ rest) cs rest := by
  induction cs with
  | nil => exact .nil rest
  | cons c cs ih =>
    obtain ⟨hc, hcs⟩ := List.forall_mem_cons.1 hcs
    rw [List.flatMap_cons, List.append_assoc]
    refine .cons (decode?_encode_append hc _) ?_
    rw [List.drop_left' (length_encode c)]
    exact ih hcs

lemma length_flatMap_encode (cs : List Nat) :
    (cs.flatMap encode).length = (cs.map encodedLength).sum := by
  simp [List.length_flatMap, length_encode]

/-- What was in the buffers does not show in the text. -/
lemma flatMap_written (items : List (Nat × Buffer)) :
    (items.flatMap fun p => written p.1 p.2) = (items.map Prod.fst).flatMap encode := by
  simp only [written_eq_encode, List.flatMap_map]

lemma length_flatMap_written (items : List (Nat × Buffer)) :
    (items.flatMap fun p => written p.1 p.2).length =
      (items.map fun p => encodedLength p.1).sum := by
  rw [flatMap_written, length_flatMap_encode, List.map_map]
  rfl

/-! ### Both ways -/

/-- No first byte announces more than six bytes. -/
lemma le_six_of_decode? {bs : List UInt8} {c n : Nat} (h : decode? bs = some (c, n)) : n ≤ 6 := by
  obtain ⟨b, tail, rest, -, rfl, hfirst, -⟩ := decode?_eq_some_iff.1 h
  rcases toNat_of_sequenceLength hfirst with ⟨hzero, -⟩ | ⟨-, hfive, -⟩ <;> omega

/-- What has been decoded is encoded in the same bytes exactly if it takes no more than it needs. -/
lemma written_eq_take_iff {bs : List UInt8} {c n : Nat} (h : decode? bs = some (c, n))
    (buffer : Buffer) : written c buffer = bs.take n ↔ n = encodedLength c := by
  obtain ⟨-, hle⟩ := length_of_decode? h
  have htake : (bs.take n).length = n := List.length_take_of_le hle
  rw [written_eq_encode]
  constructor
  · intro heq
    rw [← length_encode c, heq, htake]
  · intro heq
    have hown := decode?_take_append h []
    rw [List.append_nil] at hown
    exact encode_of_decode? (by rw [hown, htake]) (htake.trans heq)

/-- Text that is encoded, whatever the buffers held, is decoded step by step into the code points
that it was made of, each with the length of its shortest sequence, up to its end. What is decoded
takes one to six bytes, on which alone it depends, and is encoded in the same bytes exactly if no
sequence for it is shorter. -/
theorem codec_inverts :
    (∀ items : List (Nat × Buffer), (∀ p ∈ items, p.1 < 0x80000000) →
      let text := items.flatMap fun p => written p.1 p.2
      Decodes text (items.map Prod.fst) [] ∧
        text.length = (items.map fun p => encodedLength p.1).sum ∧
        ∀ before p after, items = before ++ p :: after →
          decode? (text.drop (before.map fun p => encodedLength p.1).sum) =
            some (p.1, encodedLength p.1)) ∧
    ∀ bs c n, decode? bs = some (c, n) →
      1 ≤ n ∧ n ≤ 6 ∧ n ≤ bs.length ∧ c < 0x80000000 ∧ encodedLength c ≤ n ∧
        (∀ more, decode? (bs.take n ++ more) = some (c, n)) ∧
        ∀ buffer, written c buffer = bs.take n ↔ n = encodedLength c := by
  constructor
  · intro items hitems text
    refine ⟨?_, length_flatMap_written items, ?_⟩
    · have hbounds : ∀ c ∈ items.map Prod.fst, c < 0x80000000 := by simpa using hitems
      have hdecodes := decodes_encode hbounds []
      rwa [List.append_nil, ← flatMap_written] at hdecodes
    · rintro before p after rfl
      have hp : p.1 < 0x80000000 := hitems p (by simp)
      simp only [text, List.flatMap_append, List.flatMap_cons]
      rw [List.drop_left' (length_flatMap_written before), written_eq_encode]
      exact decode?_encode_append hp _
  · intro bs c n h
    obtain ⟨hpos, hle⟩ := length_of_decode? h
    obtain ⟨hlen, hshort⟩ := encodedLength_le_of_decode? h
    exact ⟨hpos, le_six_of_decode? h, hle, encodedLength_pos_iff.1 hlen, hshort,
      decode?_take_append h, written_eq_take_iff h⟩

/-- A sequence of one byte and the longest one, in buffers that were not empty, and a backslash in
two bytes, which is encoded in one. -/
theorem codec_inverts_longest :
    let items : List (Nat × Buffer) := [(0x41, .replicate 6 0xFF), (0x7FFFFFFF, .replicate 6 0xFF)]
    let text := items.flatMap fun p => written p.1 p.2
    text = [0x41, 0xFD, 0xBF, 0xBF, 0xBF, 0xBF, 0xBF] ∧ Decodes text [0x41, 0x7FFFFFFF] [] ∧
      decode? (text.drop 1) = some (0x7FFFFFFF, 6) ∧ decode? [0xC1, 0x9C, 0x6E] = some (0x5C, 2) ∧
      ∀ buffer, written 0x5C buffer ≠ [0xC1, 0x9C] := by
  intro items text
  obtain ⟨hforth, hback⟩ := codec_inverts
  obtain ⟨hdecodes, -, hsteps⟩ := hforth items (by decide)
  obtain ⟨-, -, -, -, -, -, hencode⟩ := hback [0xC1, 0x9C, 0x6E] 0x5C 2 rfl
  refine ⟨by decide, hdecodes, hsteps [(0x41, _)] (0x7FFFFFFF, _) [] rfl, rfl, ?_⟩
  intro buffer heq
  exact absurd ((hencode buffer).1 heq) (by decide)

end CodePoint

end ScriptGraph
