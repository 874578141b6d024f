import Mathlib.Algebra.Group.Nat.Defs
import Mathlib.Data.List.TakeWhile
import Mathlib.Tactic.Lemma
import Mathlib.Tactic.SplitIfs
import ScriptGraph.Number.Reading

/-!
# Exact numbers

A natural number of at most 53 bits is a number of the language without rounding, so different ones
stay different. A numeral that can be read consists of ASCII characters, and digits with a fraction
part can be read.
-/

namespace ScriptGraph

namespace Number

/-! ### Natural numbers -/

/-- The exponent is kept behind a name, since the power must not be evaluated. -/
lemma unitsInOne_eq : ∃ k, k = 1074 ∧ unitsInOne = 2 ^ k := by
  refine ⟨1074, rfl, ?_⟩
  unfold unitsInOne
  generalize 1074 = k
  exact Nat.pow_eq

lemma roundHalfEven_mul {d : Nat} (hd : 0 < d) (q : Nat) : roundHalfEven (q * d) d = q := by
  simp only [roundHalfEven, Nat.mul_div_cancel q hd, Nat.mul_mod_left, Nat.mul_zero]
  rw [if_pos hd]

/-- Shifting a natural number of at most 53 bits so far that its leading bit takes place 52 leaves
nothing to round. -/
lemma roundHalfEven_shifted {n k : Nat} (hn : n ≠ 0) (h : n < 2 ^ 53) (hk : 52 ≤ k) :
    (n * 2 ^ k).log2 - 52 = n.log2 + (k - 52) ∧
      roundHalfEven (n * 2 ^ k) (1 * 2 ^ (n.log2 + (k - 52))) = n * 2 ^ (52 - n.log2) := by
  have hlog : n.log2 < 53 := (Nat.log2_lt hn).2 h
  have hlog' : (n * 2 ^ k).log2 = n.log2 + k := by
    have hne : n * 2 ^ k ≠ 0 := Nat.mul_ne_zero hn (Nat.ne_of_gt (Nat.two_pow_pos k))
    rw [Nat.log2_eq_iff hne, Nat.pow_add, Nat.add_right_comm, Nat.pow_add]
    exact ⟨Nat.mul_le_mul_right _ (Nat.log2_self_le hn),
      Nat.mul_lt_mul_of_pos_right Nat.lt_log2_self (Nat.two_pow_pos k)⟩
  have hsplit : n * 2 ^ k = n * 2 ^ (52 - n.log2) * 2 ^ (n.log2 + (k - 52)) := by
    rw [Nat.mul_assoc, ← Nat.pow_add]
    congr 2
    omega
  constructor
  · omega
  · rw [hsplit, Nat.one_mul, roundHalfEven_mul (Nat.two_pow_pos _)]

/-- The leading bit of a significand takes place 52. -/
lemma significand_bounds {n : Nat} (hn : n ≠ 0) (h : n < 2 ^ 53) :
    binade ≤ n * 2 ^ (52 - n.log2) ∧ n * 2 ^ (52 - n.log2) < 2 * binade := by
  have hlog : n.log2 < 53 := (Nat.log2_lt hn).2 h
  have hlow := Nat.mul_le_mul_right (2 ^ (52 - n.log2)) (Nat.log2_self_le hn)
  have hhigh := Nat.mul_lt_mul_of_pos_right (Nat.lt_log2_self (n := n))
    (Nat.two_pow_pos (52 - n.log2))
  rw [← Nat.pow_add, show n.log2 + (52 - n.log2) = 52 by omega] at hlow
  rw [← Nat.pow_add, show n.log2 + 1 + (52 - n.log2) = 53 by omega] at hhigh
  exact ⟨hlow, hhigh⟩

lemma nearestRank_natural {n : Nat} (hn : n ≠ 0) (h : n < 2 ^ 53) :
    nearestRank n 1 = (n.log2 + 1022) * binade + n * 2 ^ (52 - n.log2) := by
  obtain ⟨k, hk, hunits⟩ := unitsInOne_eq
  obtain ⟨hscale, hrounded⟩ := roundHalfEven_shifted hn h (show 52 ≤ k by omega)
  obtain ⟨-, hbound⟩ := significand_bounds hn h
  have hlog : n.log2 < 53 := (Nat.log2_lt hn).2 h
  have hfinite : (n.log2 + 1022) * binade + n * 2 ^ (52 - n.log2) ≤ infinityRank := by
    have hmul : (n.log2 + 1022) * binade ≤ (0x7FF - 2) * binade :=
      Nat.mul_le_mul_right _ (by omega)
    rw [Nat.sub_mul] at hmul
    rw [infinityRank]
    omega
  have hexp : k - 52 = 1022 := by omega
  rw [hexp] at hscale hrounded
  simp only [nearestRank, hunits, Nat.pow_eq, Nat.div_one, hscale]
  rw [hrounded]
  exact Nat.min_eq_left hfinite

/-- A natural number of at most 53 bits is not rounded. -/
lemma units_nearestRank {n : Nat} (h : n < 2 ^ 53) : units (nearestRank n 1) = n * unitsInOne := by
  by_cases hn : n = 0
  · subst hn
    simp [nearestRank, roundHalfEven, units, significand, binade]
  · obtain ⟨hlow, hhigh⟩ := significand_bounds hn h
    have hlog : n.log2 < 53 := (Nat.log2_lt hn).2 h
    have hpos : 0 < binade := by decide
    rw [nearestRank_natural hn h]
    generalize hm : n * 2 ^ (52 - n.log2) = m at *
    obtain ⟨r, rfl⟩ := Nat.exists_eq_add_of_le hlow
    have hr : r < binade := by omega
    have hrank : (n.log2 + 1022) * binade + (binade + r) = r + (n.log2 + 1023) * binade := by
      rw [Nat.add_mul, Nat.add_mul]
      omega
    have hscale : scale (r + (n.log2 + 1023) * binade) = n.log2 + 1022 := by
      rw [scale, Nat.add_mul_div_right _ _ hpos, Nat.div_eq_of_lt hr]
      omega
    have hsignificand : significand (r + (n.log2 + 1023) * binade) = binade + r := by
      have hnot : ¬ r + (n.log2 + 1023) * binade < binade := by
        rw [Nat.add_mul]
        omega
      rw [significand, if_neg hnot, Nat.add_mul_mod_self_right, Nat.mod_eq_of_lt hr]
    obtain ⟨k, hk, hunits⟩ := unitsInOne_eq
    rw [hrank, units, hscale, hsignificand, ← hm, hunits, Nat.pow_eq, Nat.mul_assoc, ← Nat.pow_add,
      show 52 - n.log2 + (n.log2 + 1022) = k by omega]

/-- Natural numbers of at most 53 bits stay apart. -/
lemma eq_of_ofNat_eq {m n : Nat} (hm : m < 2 ^ 53) (hn : n < 2 ^ 53) (h : ofNat m = ofNat n) :
    m = n := by
  simp only [ofNat, ofRatio, ranked.injEq, Fin.mk.injEq, true_and] at h
  have hunits := congrArg units h
  rw [units_nearestRank hm, units_nearestRank hn] at hunits
  obtain ⟨k, -, hone⟩ := unitsInOne_eq
  rw [hone] at hunits
  exact Nat.eq_of_mul_eq_mul_right (Nat.two_pow_pos k) hunits

lemma ofNat_ne_nan (n : Nat) : ofNat n ≠ nan := by
  intro h
  cases h

/-! ### Numerals -/

lemma toLower_eq {c : Char} (h : c.toNat < 'A'.toNat ∨ 'Z'.toNat < c.toNat) : c.toLower = c := by
  have hnot : ¬(c ≥ 'A' ∧ c ≤ 'Z') := by
    rintro ⟨hge, hle⟩
    have hge' : 'A'.toNat ≤ c.toNat := hge
    have hle' : c.toNat ≤ 'Z'.toNat := hle
    omega
  exact dif_neg hnot

lemma isDigit_iff {c : Char} : c.isDigit = true ↔ 0x30 ≤ c.toNat ∧ c.toNat ≤ 0x39 := by
  simp only [Char.isDigit, Bool.and_eq_true, decide_eq_true_eq]
  rfl

/-- Whether all characters are ASCII characters. -/
def Ascii (cs : List Char) : Prop := ∀ c ∈ cs, c.toNat < 0x80

variable {cs ds : List Char}

lemma Ascii.append (hcs : Ascii cs) (hds : Ascii ds) : Ascii (cs ++ ds) := by
  intro c hc
  rcases List.mem_append.1 hc with hc | hc
  · exact hcs c hc
  · exact hds c hc

lemma ascii_of_digits (h : cs.all Char.isDigit = true) : Ascii cs := by
  intro c hc
  have := isDigit_iff.1 (List.all_eq_true.1 h c hc)
  omega

lemma ascii_of_map_toLower {word : List Char} (h : cs.map Char.toLower = word)
    (hword : Ascii word) : Ascii cs := by
  intro c hc
  have hlower : c.toLower ∈ word := h ▸ List.mem_map_of_mem hc
  by_cases hupper : 'Z'.toNat < c.toNat
  · rw [toLower_eq (.inr hupper)] at hlower
    exact hword c hlower
  · have hZ : 'Z'.toNat = 0x5A := rfl
    omega

lemma splitSign_eq (cs : List Char) : ∃ sign, cs = sign ++ (splitSign cs).2 ∧ Ascii sign := by
  unfold splitSign
  split
  · exact ⟨['-'], rfl, by simp [Ascii]⟩
  · exact ⟨['+'], rfl, by simp [Ascii]⟩
  · exact ⟨[], rfl, by simp [Ascii]⟩

lemma splitFraction_eq (cs : List Char) :
    ∃ point, cs = point ++ ((splitFraction cs).1 ++ (splitFraction cs).2) ∧ Ascii point ∧
      (splitFraction cs).1.all Char.isDigit = true := by
  unfold splitFraction
  split
  · next cs =>
    refine ⟨['.'], ?_, by simp [Ascii], List.all_takeWhile⟩
    simp
  · exact ⟨[], rfl, by simp [Ascii], rfl⟩

lemma ascii_of_readExponent? {e : Int} (h : readExponent? cs = some e) : Ascii cs := by
  cases cs with
  | nil => simp [Ascii]
  | cons c cs =>
    simp only [readExponent?] at h
    split at h
    · next hc =>
      obtain ⟨sign, hsplit, hsign⟩ := splitSign_eq cs
      split at h
      · next hdigits =>
        have hmark : Ascii [c] := by
          rcases hc with rfl | rfl <;> simp [Ascii]
        rw [hsplit]
        exact hmark.append (hsign.append (ascii_of_digits hdigits.2))
      · cases h
    · cases h

lemma ascii_of_readUnsigned? {negative : Bool} {n : Number}
    (h : readUnsigned? negative cs = some n) : Ascii cs := by
  unfold readUnsigned? at h
  split at h
  · next hword => exact ascii_of_map_toLower hword (by simp [Ascii])
  · next hword => exact ascii_of_map_toLower hword (by simp [Ascii])
  · next hword => exact ascii_of_map_toLower hword (by simp [Ascii])
  · simp only at h
    split at h
    · cases h
    · obtain ⟨point, hsplit, hpoint, hfraction⟩ := splitFraction_eq (cs.dropWhile Char.isDigit)
      obtain ⟨e, he, -⟩ := Option.map_eq_some_iff.1 h
      rw [← List.takeWhile_append_dropWhile (p := Char.isDigit) (l := cs), hsplit]
      exact (ascii_of_digits List.all_takeWhile).append
        (hpoint.append ((ascii_of_digits hfraction).append (ascii_of_readExponent? he)))

/-- A numeral that can be read is in ASCII. -/
lemma ascii_of_read? {n : Number} (h : read? cs = some n) : Ascii cs := by
  obtain ⟨sign, hsplit, hsign⟩ := splitSign_eq cs
  rw [hsplit]
  exact hsign.append (ascii_of_readUnsigned? h)

lemma ofDigits_ne_nan (negative : Bool) (cs : List Char) (e : Int) :
    ofDigits negative cs e ≠ nan := by
  simp only [ofDigits]
  split_ifs
  · simp [zero]
  · simp [infinity]
  · simp [ofRatio]

/-- Digits can be read, also with a point and more digits after them. -/
lemma read?_digits {c : Char} {whole tail : List Char}
    (hwhole : (c :: whole).all Char.isDigit = true)
    (htail : tail = [] ∨ ∃ fraction, tail = '.' :: fraction ∧ fraction.all Char.isDigit = true) :
    ∃ n, read? (c :: whole ++ tail) = some n ∧ n ≠ nan := by
  have hc : c.isDigit = true := by
    rw [List.all_cons, Bool.and_eq_true] at hwhole
    exact hwhole.1
  have hsign : splitSign (c :: whole ++ tail) = (false, c :: whole ++ tail) := by
    unfold splitSign
    split
    · next heq =>
      cases heq
      cases hc
    · next heq =>
      cases heq
      cases hc
    · rfl
  have hlower : c.toLower = c := by
    have hA : 'A'.toNat = 0x41 := rfl
    have := isDigit_iff.1 hc
    exact toLower_eq (.inl (by omega))
  have htake : (c :: whole ++ tail).takeWhile Char.isDigit = c :: whole ∧
      (c :: whole ++ tail).dropWhile Char.isDigit = tail := by
    rw [List.takeWhile_append_of_pos (List.all_eq_true.1 hwhole),
      List.dropWhile_append_of_pos (List.all_eq_true.1 hwhole)]
    rcases htail with rfl | ⟨fraction, rfl, -⟩
    · simp
    · simp [Char.isDigit]
  have hexponent : readExponent? (splitFraction tail).2 = some 0 := by
    rcases htail with rfl | ⟨fraction, rfl, hfraction⟩
    · rfl
    · have hdrop : fraction.dropWhile Char.isDigit = [] :=
        List.dropWhile_eq_nil_iff.2 (List.all_eq_true.1 hfraction)
      simp only [splitFraction, hdrop]
      rfl
  simp only [read?, hsign, readUnsigned?]
  split
  · exact ⟨_, rfl, by simp [infinity]⟩
  · exact ⟨_, rfl, by simp [infinity]⟩
  · next hword =>
    rw [List.cons_append, List.map_cons, hlower] at hword
    obtain ⟨rfl, -⟩ := List.cons.inj hword
    cases hc
  · rw [htake.1, htake.2, if_neg (by simp), hexponent]
    exact ⟨_, rfl, ofDigits_ne_nan _ _ _⟩

end Number

end ScriptGraph
