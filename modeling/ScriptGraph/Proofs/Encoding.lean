import Mathlib.Tactic.IntervalCases
import Mathlib.Tactic.SplitIfs
import ScriptGraph.Proofs.Decoding
import ScriptGraph.Text.Utf8

/-!
# Shortest forms

The codec of source texts decodes sequences that standard text does not know. A sequence is the
encoding of its code point exactly if no shorter one would do. As standard text such a sequence
reads as that character, if the code point is one, and any other sequence reads as one replacement
character for each of its bytes.
-/

namespace ScriptGraph

namespace CodePoint

/-! ### Bytes of a sequence -/

lemma isContinuation_iff {b : UInt8} :
    isContinuation b = true ↔ 0x80 ≤ b.toNat ∧ b.toNat < 0xC0 := by
  simp [isContinuation]

/-- A first byte marks the length of its sequence and carries the payload. -/
lemma toNat_of_sequenceLength {b : UInt8} {n : Nat} (h : sequenceLength b = n + 1) :
    n = 0 ∧ b.toNat = payload b ∧ payload b < 0x80 ∨
      0 < n ∧ n ≤ 5 ∧ b.toNat = 256 - 2 ^ (7 - n) + payload b ∧ payload b < 2 ^ (6 - n) := by
  have hpayload : payload b = if n = 0 then b.toNat else b.toNat % 2 ^ (6 - n) := by
    have hexp : 7 - (n + 1) = 6 - n := by omega
    rw [payload, h, hexp]
    simp only [Nat.add_eq_right]
    rfl
  unfold sequenceLength at h
  simp only at h
  split_ifs at h
  all_goals
    obtain rfl : n = _ := (Nat.succ.inj h).symm
    simp only [reduceIte, Nat.reduceSub, Nat.reducePow, OfNat.ofNat_ne_zero, one_ne_zero]
      at hpayload
    first
    | exact .inl ⟨rfl, hpayload.symm, by omega⟩
    | refine .inr ⟨by decide, by decide, ?_, ?_⟩ <;> simp only [Nat.reduceSub, Nat.reducePow] <;>
        omega

lemma extend?_cons {c : Nat} {b : UInt8} {tail : List UInt8} {v : Nat}
    (h : extend? c (b :: tail) = some v) :
    isContinuation b = true ∧ extend? (c * 64 + (b.toNat - 0x80)) tail = some v := by
  rw [extend?] at h
  split at h
  · next hb =>
    have hmod : b.toNat % 64 = b.toNat - 0x80 := by
      have := isContinuation_iff.1 hb
      omega
    exact ⟨hb, hmod ▸ h⟩
  · cases h

/-- The continuation bytes of a sequence are those for the low groups of its code point, and what
they leave is the payload of the first byte. -/
lemma continuations_of_extend? {c v : Nat} {tail : List UInt8} (h : extend? c tail = some v) :
    continuations tail.length v = tail ∧ v / 64 ^ tail.length = c ∧
      ∀ b ∈ tail, isContinuation b = true := by
  induction tail generalizing c with
  | nil =>
    cases h
    simp [continuations]
  | cons b tail ih =>
    obtain ⟨hb, h⟩ := extend?_cons h
    obtain ⟨hbytes, hquotient, htail⟩ := ih h
    have hbound := isContinuation_iff.1 hb
    have hfirst (n v : Nat) : continuations (n + 1) v =
        UInt8.ofNat (0x80 + v / 64 ^ n % 64) :: continuations n v := by
      clear * -
      induction n generalizing v with
      | zero => simp [continuations]
      | succ n ih =>
        rw [continuations, ih, continuations, Nat.div_div_eq_div_mul, Nat.pow_succ']
        rfl
    have hlow : (c * 64 + (b.toNat - 0x80)) % 64 = b.toNat - 0x80 := by omega
    have hhigh : (c * 64 + (b.toNat - 0x80)) / 64 = c := by omega
    have hbyte : 0x80 + (b.toNat - 0x80) = b.toNat := by omega
    rw [List.length_cons, hfirst, hquotient, hlow, hbyte, hbytes, UInt8.ofNat_toNat, Nat.pow_succ,
      ← Nat.div_div_eq_div_mul, hquotient, hhigh]
    exact ⟨rfl, rfl, List.forall_mem_cons.2 ⟨hb, htail⟩⟩

/-- Bytes that are a whole sequence consist of a first byte and its continuation bytes. -/
lemma eq_cons_of_decode? {bs : List UInt8} {v : Nat} (h : decode? bs = some (v, bs.length)) :
    ∃ b tail, bs = b :: tail ∧ sequenceLength b = tail.length + 1 ∧
      extend? (payload b) tail = some v := by
  obtain ⟨b, tail, rest, rfl, hn, hlen, hv⟩ := decode?_eq_some_iff.1 h
  obtain rfl : rest = [] := by
    rw [List.length_cons, List.length_append] at hn
    exact List.length_eq_zero_iff.1 (by omega)
  rw [List.append_nil] at hlen ⊢
  exact ⟨b, tail, rfl, hlen, hv⟩

/-! ### Lengths of sequences -/

lemma encodedLength_pos_iff {v : Nat} : 0 < encodedLength v ↔ v < 0x80000000 := by
  unfold encodedLength
  split_ifs <;> omega

lemma encodedLength_le_iff {v n : Nat} (hpos : 0 < n) (hle : n ≤ 5) :
    encodedLength v ≤ n + 1 ↔ v < 2 ^ (6 - n) * 64 ^ n ∨ 0x80000000 ≤ v := by
  interval_cases n
  all_goals
    simp only [Nat.reduceSub, Nat.reducePow, Nat.reduceMul]
    unfold encodedLength
    split_ifs <;> omega

lemma encodedLength_eq_one_iff {v : Nat} : encodedLength v = 1 ↔ v < 0x80 := by
  unfold encodedLength
  split_ifs <;> simp <;> omega

/-- A sequence is no shorter than the shortest one of its code point. -/
lemma encodedLength_le_of_decode? {bs : List UInt8} {v n : Nat} (h : decode? bs = some (v, n)) :
    0 < encodedLength v ∧ encodedLength v ≤ n := by
  obtain ⟨b, tail, rest, rfl, rfl, hlen, hv⟩ := decode?_eq_some_iff.1 h
  obtain ⟨-, hquotient, -⟩ := continuations_of_extend? hv
  rcases toNat_of_sequenceLength hlen with ⟨hzero, -, hpayload⟩ | ⟨hpos, hle, -, hpayload⟩
  · rw [hzero, Nat.pow_zero, Nat.div_one] at hquotient
    rw [hzero, encodedLength_eq_one_iff.2 (by omega)]
    omega
  · have hbound : v < 2 ^ (6 - tail.length) * 64 ^ tail.length := by
      rw [← Nat.div_lt_iff_lt_mul (Nat.pow_pos (by decide)), hquotient]
      exact hpayload
    refine ⟨?_, (encodedLength_le_iff hpos hle).2 (.inl hbound)⟩
    rw [encodedLength_pos_iff]
    generalize tail.length = n at *
    interval_cases n
    all_goals
      simp only [Nat.reduceSub, Nat.reducePow, Nat.reduceMul] at hbound
      omega

/-- The shortest sequence of a code point is its encoding. -/
lemma encode_of_decode? {bs : List UInt8} {v : Nat} (h : decode? bs = some (v, bs.length))
    (hshort : bs.length = encodedLength v) : encode v = bs := by
  obtain ⟨b, tail, rfl, hlen, hv⟩ := eq_cons_of_decode? h
  rw [List.length_cons] at hshort
  obtain ⟨hbytes, hquotient, -⟩ := continuations_of_extend? hv
  unfold encode
  rw [← hshort]
  rcases toNat_of_sequenceLength hlen with ⟨hzero, hb, -⟩ | ⟨hpos, -, hb, -⟩
  · obtain rfl := List.length_eq_zero_iff.1 hzero
    rw [List.length_nil, Nat.pow_zero, Nat.div_one] at hquotient
    show [UInt8.ofNat v] = [b]
    rw [hquotient, ← hb, UInt8.ofNat_toNat]
  · obtain ⟨n, hn⟩ := Nat.exists_eq_add_one_of_ne_zero (Nat.ne_of_gt hpos)
    rw [hn] at hb hquotient hbytes ⊢
    show UInt8.ofNat (256 - 2 ^ (7 - (n + 1)) + v / 64 ^ (n + 1)) :: continuations (n + 1) v =
      b :: tail
    rw [hquotient, ← hb, hbytes, UInt8.ofNat_toNat]

end CodePoint

/-! ### Reading sequences as standard text -/

namespace Utf8

open CodePoint

lemma decodeFrom_eq_drop (k : Nat) (bs : List UInt8) :
    decodeFrom k bs = decodeFrom 0 (bs.drop k) := by
  induction bs generalizing k with
  | nil => simp [decodeFrom]
  | cons b bs ih =>
    cases k with
    | zero => rfl
    | succ k => exact ih k

lemma decodeFrom_cons (b : UInt8) (bs : List UInt8) :
    decodeFrom 0 (b :: bs) =
      (readChar b bs).1 :: decodeFrom 0 (bs.drop ((readChar b bs).2 - 1)) := by
  rw [decodeFrom]
  exact congrArg _ (decodeFrom_eq_drop _ bs)

/-- How a sequence of `n` bytes reads at its first byte: as its code point, if it is the shortest
one of a character. -/
def reading (v n : Nat) : Char × Nat :=
  if v.isValidChar ∧ n = encodedLength v then (Char.ofNat v, n) else (replacement, 1)

lemma readChar_of_none {b : UInt8} (h : tailRanges b = none) (bs : List UInt8) :
    readChar b bs = (replacement, 1) := by
  rw [readChar, h]

lemma readChar_continuation {b : UInt8} (h : isContinuation b = true) (bs : List UInt8) :
    readChar b bs = (replacement, 1) := by
  rw [isContinuation_iff] at h
  refine readChar_of_none ?_ bs
  unfold tailRanges
  simp only
  rw [if_neg (by omega), if_pos (by omega)]

lemma agreeing_replicate {tail : List UInt8} (htail : ∀ t ∈ tail, isContinuation t = true)
    (rest : List UInt8) :
    agreeing (List.replicate tail.length (0x80, 0xBF)) (tail ++ rest) = tail.length := by
  induction tail with
  | nil => simp [agreeing]
  | cons t tail ih =>
    have ht := isContinuation_iff.1 (htail t List.mem_cons_self)
    rw [List.length_cons, List.replicate_succ, List.cons_append, agreeing, if_pos (by omega),
      ih fun t' ht' => htail t' (List.mem_cons_of_mem t ht')]

variable {b t : UInt8} {tail : List UInt8} {v low high : Nat}

/-- Of the continuation bytes only the first has a range of its own, so it decides whether the
sequence is well formed. -/
lemma readChar_of_ranges
    (hranges : tailRanges b = some ((low, high) :: List.replicate tail.length (0x80, 0xBF)))
    (hlen : sequenceLength b = tail.length + 2) (hv : extend? (payload b) (t :: tail) = some v)
    (hiff : low ≤ t.toNat ∧ t.toNat ≤ high ↔ v.isValidChar ∧ tail.length + 2 = encodedLength v)
    (rest : List UInt8) :
    readChar b (t :: tail ++ rest) = reading v (tail.length + 2) := by
  have hdecode : decode? (b :: (t :: tail ++ rest)) = some (v, tail.length + 2) :=
    decode?_eq_some_iff.2 ⟨b, t :: tail, rest, rfl, rfl, hlen, hv⟩
  obtain ⟨-, -, htail⟩ := continuations_of_extend? hv
  rw [readChar, hranges, hdecode, reading]
  simp only [List.cons_append, agreeing, agreeing_replicate (List.forall_mem_cons.1 htail).2,
    List.length_cons, List.length_replicate]
  by_cases h : low ≤ t.toNat ∧ t.toNat ≤ high
  · rw [if_pos h, if_pos (hiff.1 h), if_pos rfl]
  · rw [if_neg h, if_neg (mt hiff.2 h), if_neg (by omega)]

lemma reading_of_not {n : Nat} (h : ¬(v.isValidChar ∧ n = encodedLength v)) :
    reading v n = (replacement, 1) := if_neg h

lemma isValidChar_iff {v : Nat} : v.isValidChar ↔ v < 0xD800 ∨ 0xDFFF < v ∧ v < 0x110000 := Iff.rfl

lemma encodedLength_eq_iff (v : Nat) :
    (2 = encodedLength v ↔ 0x80 ≤ v ∧ v < 0x800) ∧ (3 = encodedLength v ↔ 0x800 ≤ v ∧ v < 0x10000) ∧
      (4 = encodedLength v ↔ 0x10000 ≤ v ∧ v < 0x200000) := by
  unfold encodedLength
  split_ifs <;> simp <;> omega

lemma readChar_two (hlen : sequenceLength b = 2) (hv : extend? (payload b) [t] = some v)
    (rest : List UInt8) : readChar b ([t] ++ rest) = reading v 2 := by
  have hb := toNat_of_sequenceLength hlen
  obtain ⟨ht, hv'⟩ := extend?_cons hv
  have hvalue : payload b * 64 + (t.toNat - 0x80) = v := Option.some.inj hv'
  rw [isContinuation_iff] at ht
  have hshort : v.isValidChar ∧ 2 = encodedLength v ↔ 2 ≤ payload b := by
    rw [isValidChar_iff, (encodedLength_eq_iff v).1]
    omega
  by_cases hp : 2 ≤ payload b
  · have hranges : tailRanges b = some [(0x80, 0xBF)] := by
      unfold tailRanges
      simp only
      rw [if_neg (by omega), if_neg (by omega), if_pos (by omega)]
    refine readChar_of_ranges hranges hlen hv ?_ rest
    rw [List.length_nil, hshort]
    omega
  · rw [reading_of_not (mt hshort.1 hp)]
    refine readChar_of_none ?_ _
    unfold tailRanges
    simp only
    rw [if_neg (by omega), if_pos (by omega)]

lemma readChar_three {u : UInt8} (hlen : sequenceLength b = 3)
    (hv : extend? (payload b) [t, u] = some v) (rest : List UInt8) :
    readChar b ([t, u] ++ rest) = reading v 3 := by
  have hb := toNat_of_sequenceLength hlen
  obtain ⟨ht, hv'⟩ := extend?_cons hv
  obtain ⟨hu, hv'⟩ := extend?_cons hv'
  have hvalue : (payload b * 64 + (t.toNat - 0x80)) * 64 + (u.toNat - 0x80) = v :=
    Option.some.inj hv'
  rw [isContinuation_iff] at ht hu
  have hread {low high : Nat} (hranges : tailRanges b = some [(low, high), (0x80, 0xBF)])
      (hiff : low ≤ t.toNat ∧ t.toNat ≤ high ↔
        (v < 0xD800 ∨ 0xDFFF < v ∧ v < 0x110000) ∧ 0x800 ≤ v ∧ v < 0x10000) :
      readChar b ([t, u] ++ rest) = reading v 3 := by
    refine readChar_of_ranges hranges hlen hv ?_ rest
    rw [hiff, ← isValidChar_iff, ← (encodedLength_eq_iff v).2.1]
    rfl
  -- The second byte excludes overlong forms after `E0` and surrogates after `ED`.
  by_cases h0 : b.toNat = 0xE0
  · have hranges : tailRanges b = some [(0xA0, 0xBF), (0x80, 0xBF)] := by
      unfold tailRanges
      rw [h0]
      rfl
    exact hread hranges (by omega)
  by_cases hD : b.toNat = 0xED
  · have hranges : tailRanges b = some [(0x80, 0x9F), (0x80, 0xBF)] := by
      unfold tailRanges
      rw [hD]
      rfl
    exact hread hranges (by omega)
  · have hranges : tailRanges b = some [(0x80, 0xBF), (0x80, 0xBF)] := by
      unfold tailRanges
      simp only
      rw [if_neg (by omega), if_neg (by omega), if_neg (by omega), if_neg h0, if_neg hD,
        if_pos (by omega)]
    exact hread hranges (by omega)

lemma readChar_four {u w : UInt8} (hlen : sequenceLength b = 4)
    (hv : extend? (payload b) [t, u, w] = some v) (rest : List UInt8) :
    readChar b ([t, u, w] ++ rest) = reading v 4 := by
  have hb := toNat_of_sequenceLength hlen
  obtain ⟨ht, hv'⟩ := extend?_cons hv
  obtain ⟨hu, hv'⟩ := extend?_cons hv'
  obtain ⟨hw, hv'⟩ := extend?_cons hv'
  have hvalue :
      ((payload b * 64 + (t.toNat - 0x80)) * 64 + (u.toNat - 0x80)) * 64 + (w.toNat - 0x80) = v :=
    Option.some.inj hv'
  rw [isContinuation_iff] at ht hu hw
  have hread {low high : Nat}
      (hranges : tailRanges b = some [(low, high), (0x80, 0xBF), (0x80, 0xBF)])
      (hiff : low ≤ t.toNat ∧ t.toNat ≤ high ↔
        (v < 0xD800 ∨ 0xDFFF < v ∧ v < 0x110000) ∧ 0x10000 ≤ v ∧ v < 0x200000) :
      readChar b ([t, u, w] ++ rest) = reading v 4 := by
    refine readChar_of_ranges hranges hlen hv ?_ rest
    rw [hiff, ← isValidChar_iff, ← (encodedLength_eq_iff v).2.2]
    rfl
  -- The second byte excludes overlong forms after `F0` and, after `F4`, what is no character.
  by_cases h0 : b.toNat = 0xF0
  · have hranges : tailRanges b = some [(0x90, 0xBF), (0x80, 0xBF), (0x80, 0xBF)] := by
      unfold tailRanges
      rw [h0]
      rfl
    exact hread hranges (by omega)
  by_cases h4 : b.toNat = 0xF4
  · have hranges : tailRanges b = some [(0x80, 0x8F), (0x80, 0xBF), (0x80, 0xBF)] := by
      unfold tailRanges
      rw [h4]
      rfl
    exact hread hranges (by omega)
  by_cases hless : b.toNat < 0xF4
  · have hranges : tailRanges b = some [(0x80, 0xBF), (0x80, 0xBF), (0x80, 0xBF)] := by
      unfold tailRanges
      simp only
      rw [if_neg (by omega), if_neg (by omega), if_neg (by omega), if_neg (by omega),
        if_neg (by omega), if_neg (by omega), if_neg h0, if_pos hless]
    exact hread hranges (by omega)
  · rw [reading_of_not (by rw [isValidChar_iff]; omega)]
    refine readChar_of_none ?_ _
    unfold tailRanges
    simp only
    rw [if_neg (by omega), if_neg (by omega), if_neg (by omega), if_neg (by omega),
      if_neg (by omega), if_neg (by omega), if_neg h0, if_neg hless, if_neg h4]

lemma readChar_long (hb : 0xF8 ≤ b.toNat) {n : Nat} (hn : 4 < n) (bs : List UInt8) :
    readChar b bs = reading v n := by
  have hnot : ¬(v.isValidChar ∧ n = encodedLength v) := by
    rintro ⟨hvalid, rfl⟩
    rw [isValidChar_iff] at hvalid
    have hle : encodedLength v ≤ 3 + 1 :=
      (encodedLength_le_iff (by decide) (by decide)).2 (by omega)
    omega
  rw [reading_of_not hnot]
  refine readChar_of_none ?_ bs
  unfold tailRanges
  simp only
  rw [if_neg (by omega), if_neg (by omega), if_neg (by omega), if_neg (by omega),
    if_neg (by omega), if_neg (by omega), if_neg (by omega), if_neg (by omega), if_neg (by omega)]

/-- A sequence reads as its code point if it is the shortest one of a character. Of any other
sequence the first byte alone reads as a replacement character. -/
lemma readChar_sequence (hlen : sequenceLength b = tail.length + 1)
    (hv : extend? (payload b) tail = some v) (rest : List UInt8) :
    readChar b (tail ++ rest) = reading v (tail.length + 1) := by
  match tail with
  | [] =>
    have hb := toNat_of_sequenceLength hlen
    rw [List.length_nil] at hb
    have hvalue : payload b = v := Option.some.inj hv
    have hranges : tailRanges b = some [] := by
      unfold tailRanges
      simp only
      rw [if_pos (by omega)]
    have hdecode : decode? (b :: ([] ++ rest)) = some (v, 1) :=
      decode?_eq_some_iff.2 ⟨b, [], rest, rfl, rfl, hlen, hv⟩
    have hshort : v.isValidChar ∧ 1 = encodedLength v := by
      rw [isValidChar_iff, eq_comm, encodedLength_eq_one_iff]
      omega
    rw [readChar, hranges, hdecode, List.length_nil, reading, if_pos hshort]
    rfl
  | [t] => exact readChar_two hlen hv rest
  | [t, u] => exact readChar_three hlen hv rest
  | [t, u, w] => exact readChar_four hlen hv rest
  | t :: u :: w :: x :: tail =>
    refine readChar_long ?_ (by simp) _
    rcases toNat_of_sequenceLength hlen with ⟨hzero, -⟩ | ⟨-, hle, hb, -⟩
    · cases hzero
    · have hpow : 2 ^ (7 - (t :: u :: w :: x :: tail).length) ≤ 2 ^ 3 :=
        Nat.pow_le_pow_right (by decide) (by simp)
      omega

lemma decodeFrom_continuations (htail : ∀ t ∈ tail, isContinuation t = true) (rest : List UInt8) :
    decodeFrom 0 (tail ++ rest) =
      List.replicate tail.length replacement ++ decodeFrom 0 rest := by
  induction tail with
  | nil => rfl
  | cons t tail ih =>
    obtain ⟨ht, htail⟩ := List.forall_mem_cons.1 htail
    rw [List.cons_append, decodeFrom_cons, readChar_continuation ht]
    exact congrArg (replacement :: ·) (ih htail)

end Utf8

/-! ### Symbols -/

namespace Symbol

open CodePoint Utf8

/-- Whether a symbol is a code point with a sequence for it. -/
def IsSequence : Symbol → Prop
  | codePoint v bs => decode? bs = some (v, bs.length)
  | malformed _ => False

/-- Whether a symbol is a code point with the shortest sequence for it. -/
def IsShortest : Symbol → Prop
  | codePoint v bs => bs.length = encodedLength v
  | malformed _ => False

/-- The characters as which the bytes of a symbol read. -/
def chars (s : Symbol) : List Char :=
  match s.char? with
  | some c => [c]
  | none => List.replicate s.bytes.length replacement

variable {s : Symbol} {ss : List Symbol} {v c : Nat} {bs : List UInt8} {cs : List Nat}

/-- The code points among the symbols of a text have their sequences. -/
lemma isSequence_of_mem_decode (hs : s ∈ decode bs) (hvalue : s.value?.isSome) : s.IsSequence := by
  induction hn : bs.length using Nat.strongRecOn generalizing bs with
  | ind n ih =>
    cases bs with
    | nil => cases hs
    | cons b bs =>
      cases hd : CodePoint.decode? (b :: bs) with
      | none =>
        rw [decode_of_none hd] at hs
        rcases List.mem_cons.1 hs with rfl | hs
        · cases hvalue
        · exact ih bs.length (hn ▸ Nat.lt_succ_self _) hs rfl
      | some r =>
        obtain ⟨v, k⟩ := r
        obtain ⟨hpos, hle⟩ := length_of_decode? hd
        rw [decode_of_some hd] at hs
        rcases List.mem_cons.1 hs with rfl | hs
        · have hown := decode?_take_append hd []
          rw [List.append_nil] at hown
          rw [IsSequence, List.length_take_of_le hle, hown]
        · refine ih _ ?_ hs rfl
          rw [List.length_drop]
          omega

/-- A sequence takes one byte or starts with a byte beyond ASCII, which continuation bytes
follow. -/
lemma IsSequence.bytes (h : (codePoint v bs).IsSequence) :
    v < 0x80 ∧ bs = [UInt8.ofNat v] ∨
      ∃ b tail, bs = b :: tail ∧ 0xC0 ≤ b.toNat ∧ tail ≠ [] ∧
        ∀ t ∈ tail, isContinuation t = true := by
  obtain ⟨b, tail, rfl, hlen, hv⟩ := eq_cons_of_decode? h
  obtain ⟨-, hquotient, htail⟩ := continuations_of_extend? hv
  rcases toNat_of_sequenceLength hlen with ⟨hzero, hb, hpayload⟩ | ⟨hpos, -, hb, -⟩
  · obtain rfl := List.length_eq_zero_iff.1 hzero
    rw [List.length_nil, Nat.pow_zero, Nat.div_one] at hquotient
    left
    rw [hquotient, ← hb, UInt8.ofNat_toNat]
    exact ⟨by omega, rfl⟩
  · right
    have hpow : 2 ^ (7 - tail.length) ≤ 2 ^ 6 := Nat.pow_le_pow_right (by decide) (by omega)
    exact ⟨b, tail, rfl, by omega, List.ne_nil_of_length_pos hpos, htail⟩

/-- A sequence of one byte is that of an ASCII code point. -/
lemma IsSequence.eq_of_single? {b : UInt8} (h : s.IsSequence) (hb : s.single? = some b) :
    s = codePoint b.toNat [b] ∧ b.toNat < 0x80 := by
  match s with
  | malformed _ | codePoint _ [] | codePoint _ (_ :: _ :: _) => cases hb
  | codePoint v [b'] =>
    cases hb
    rcases h.bytes with ⟨hv, hbytes⟩ | ⟨b', tail, hbytes, -, htail, -⟩
    · cases hbytes
      have hround : (UInt8.ofNat v).toNat = v :=
        UInt8.toNat_ofNat_of_lt' (Nat.lt_trans hv (by decide))
      rw [hround]
      exact ⟨rfl, hv⟩
    · exact absurd (List.cons.inj hbytes).2.symm htail

/-- An ASCII code point has its own byte as its shortest sequence. -/
lemma isShortest_iff_of_ascii (h : (codePoint v bs).IsSequence) (hv : v < 0x80) :
    (codePoint v bs).IsShortest ↔ bs = [UInt8.ofNat v] := by
  rw [IsShortest, encodedLength_eq_one_iff.2 hv]
  rcases h.bytes with ⟨-, rfl⟩ | ⟨b, tail, rfl, hb, htail, -⟩
  · simp
  · simp [htail]

/-- No text of sequences is shorter than the encoding of its code points. -/
lemma length_encode_le (hss : ∀ s ∈ ss, s.IsSequence) :
    ((codePoints ss).flatMap CodePoint.encode).length ≤ (spell ss).length := by
  induction ss with
  | nil => exact Nat.le_refl 0
  | cons s ss ih =>
    obtain ⟨hs, hrest⟩ := List.forall_mem_cons.1 hss
    cases s with
    | malformed b => exact hs.elim
    | codePoint v bs =>
      obtain ⟨-, hv⟩ := encodedLength_le_of_decode? hs
      rw [codePoints_cons, List.flatMap_cons, spell_cons, List.length_append, List.length_append,
        length_encode]
      exact Nat.add_le_add hv (ih hrest)

/-- A text of sequences is the encoding of its code points if all of them are the shortest. -/
lemma spell_eq_encode_iff (hss : ∀ s ∈ ss, s.IsSequence) :
    spell ss = (codePoints ss).flatMap CodePoint.encode ↔ ∀ s ∈ ss, s.IsShortest := by
  induction ss with
  | nil => simp
  | cons s ss ih =>
    obtain ⟨hs, hrest⟩ := List.forall_mem_cons.1 hss
    cases s with
    | malformed b => exact hs.elim
    | codePoint v bs =>
      rw [codePoints_cons, List.flatMap_cons, spell_cons, List.forall_mem_cons, ← ih hrest]
      constructor
      · intro heq
        have hlen := congrArg List.length heq
        obtain ⟨-, hv⟩ := encodedLength_le_of_decode? hs
        have hsum := length_encode_le hrest
        rw [List.length_append, List.length_append, length_encode] at hlen
        have hshort : bs.length = encodedLength v := by
          rw [Symbol.bytes] at hlen
          omega
        rw [encode_of_decode? hs hshort] at heq
        exact ⟨hshort, List.append_cancel_left heq⟩
      · rintro ⟨hshort, heq⟩
        rw [heq, encode_of_decode? hs hshort]
        rfl

lemma chars_of_isShortest (hv : v.isValidChar) (h : (codePoint v bs).IsShortest) :
    (codePoint v bs).chars = [Char.ofNat v] := by
  rw [IsShortest] at h
  simp [chars, char?, hv, h]

/-- A sequence that is not the shortest one takes two bytes at least, and none of them reads as a
character of its own. -/
lemma chars_of_not_isShortest (hs : (codePoint v bs).IsSequence)
    (h : ¬(codePoint v bs).IsShortest) :
    ∃ n, (codePoint v bs).chars = List.replicate (n + 2) replacement := by
  obtain ⟨hpos, hle⟩ := encodedLength_le_of_decode? hs
  rw [IsShortest] at h
  obtain ⟨n, hn⟩ := Nat.exists_eq_add_of_le (show 2 ≤ bs.length by omega)
  refine ⟨n, ?_⟩
  simp only [chars, char?, h, and_false, if_false]
  rw [Symbol.bytes, hn, Nat.add_comm]

/-- As standard text, each sequence reads for itself. -/
lemma decodeFrom_spell_append (hss : ∀ s ∈ ss, s.IsSequence) (rest : List UInt8) :
    Utf8.decodeFrom 0 (spell ss ++ rest) = ss.flatMap chars ++ Utf8.decodeFrom 0 rest := by
  induction ss with
  | nil => rfl
  | cons s ss ih =>
    obtain ⟨hs, hrest⟩ := List.forall_mem_cons.1 hss
    cases s with
    | malformed b => exact hs.elim
    | codePoint v bs =>
      obtain ⟨b, tail, rfl, hlen, hv⟩ := eq_cons_of_decode? hs
      rw [spell_cons, Symbol.bytes, List.append_assoc, List.cons_append, decodeFrom_cons,
        readChar_sequence hlen hv, List.flatMap_cons, List.append_assoc, ← ih hrest]
      by_cases hread : v.isValidChar ∧ tail.length + 1 = encodedLength v
      · have hshort : (codePoint v (b :: tail)).IsShortest := hread.2
        rw [chars_of_isShortest hread.1 hshort, reading, if_pos hread]
        simp
      · have hnone : (codePoint v (b :: tail)).char? = none := if_neg hread
        obtain ⟨-, -, htail⟩ := continuations_of_extend? hv
        rw [reading, if_neg hread, chars, hnone]
        exact congrArg (replacement :: ·) (decodeFrom_continuations htail _)

lemma decodeFrom_spell (hss : ∀ s ∈ ss, s.IsSequence) :
    Utf8.decodeFrom 0 (spell ss) = ss.flatMap chars := by
  have happend := decodeFrom_spell_append hss []
  rwa [List.append_nil, Utf8.decodeFrom, List.append_nil] at happend

end Symbol

end ScriptGraph
