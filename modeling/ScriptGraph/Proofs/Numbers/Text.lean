import Mathlib.Order.Monotone.Basic
import Mathlib.Tactic.Ring
import ScriptGraph.Proofs.Json.Scalars
import ScriptGraph.Proofs.Numbers

/-!
# Texts of numbers

The text of a finite number is a decimal that lies between the midpoints to its neighbours. The
magnitudes are ordered by their rank, so no decimal lies there for two of them, and different
numbers have different texts.
-/

namespace ScriptGraph

namespace Number

/-! ### Magnitudes -/

/-- Below the first binade neighbours are one unit apart. -/
lemma units_of_lt {rank : Nat} (h : rank < binade) : units rank = rank := by
  rw [units, significand, if_pos h, scale, Nat.div_eq_of_lt h]
  exact Nat.mul_one rank

/-- From there on the distance doubles with each binade. -/
lemma units_binade {r : Nat} (h : r < binade) (q : Nat) :
    units (r + (q + 1) * binade) = (binade + r) * 2 ^ q := by
  have hnot : ¬r + (q + 1) * binade < binade := by
    rw [Nat.succ_mul]
    omega
  have hscale : scale (r + (q + 1) * binade) = q := by
    rw [scale, Nat.add_mul_div_right _ _ (by decide), Nat.div_eq_of_lt h]
    omega
  rw [units, significand, if_neg hnot, hscale, Nat.add_mul_mod_self_right, Nat.mod_eq_of_lt h]
  rfl

/-- Each rank stands for a larger magnitude than the one before. -/
lemma units_lt_units_succ (rank : Nat) : units rank < units (rank + 1) := by
  have hpos : 0 < binade := by decide
  have hsplit := Nat.mod_add_div rank binade
  have hlt := Nat.mod_lt rank hpos
  generalize rank / binade = q at hsplit
  generalize rank % binade = r at hsplit hlt
  subst hsplit
  rw [Nat.mul_comm binade]
  by_cases hlast : r + 1 < binade
  · cases q with
    | zero =>
      rw [Nat.zero_mul, Nat.add_zero, units_of_lt hlt, units_of_lt hlast]
      exact Nat.lt_succ_self r
    | succ q =>
      rw [Nat.add_right_comm, units_binade hlt, units_binade hlast]
      exact Nat.mul_lt_mul_of_pos_right (by omega) (Nat.two_pow_pos q)
  · -- The next rank opens a binade.
    have hnext : r + q * binade + 1 = 0 + (q + 1) * binade := by
      rw [Nat.succ_mul]
      omega
    rw [hnext, units_binade hpos]
    cases q with
    | zero =>
      rw [Nat.zero_mul, Nat.add_zero, units_of_lt hlt]
      omega
    | succ q =>
      rw [units_binade hlt, Nat.pow_succ, ← Nat.mul_assoc, Nat.mul_right_comm]
      exact Nat.mul_lt_mul_of_pos_right (by omega) (Nat.two_pow_pos q)

lemma units_strictMono : StrictMono units := strictMono_nat_of_lt_succ units_lt_units_succ

/-! ### Decimals between midpoints -/

/-- Whether a fraction lies between the midpoints from a magnitude to its neighbours. A midpoint
belongs to the magnitude of even rank. -/
def Rounds (rank p q : Nat) : Prop :=
  let low := (units (rank - 1) + units rank) * q
  let high := (units rank + units (rank + 1)) * q
  let value := p * (2 * unitsInOne)
  if rank % 2 = 0 then low ≤ value ∧ value ≤ high else low < value ∧ value < high

lemma readsAs_iff {rank : Nat} {d : Decimal} :
    readsAs rank d = true ↔
      Rounds rank (d.coefficient * (tenPower d.exponent).1) (tenPower d.exponent).2 := by
  simp only [readsAs, Rounds]
  split_ifs <;> simp

/-- Equal fractions lie between the same midpoints. -/
lemma Rounds.congr {rank p q p' q' : Nat} (h : Rounds rank p q) (hq : 0 < q) (hq' : 0 < q')
    (heq : p * q' = p' * q) : Rounds rank p' q' := by
  have hbound (a : Nat) : a * q * q' = a * q' * q := Nat.mul_right_comm a q q'
  have hvalue (b : Nat) : p * b * q' = p' * b * q := by
    rw [Nat.mul_right_comm, heq, Nat.mul_right_comm]
  have hle {a b : Nat} (h : a * q ≤ p * b) : a * q' ≤ p' * b := by
    refine Nat.le_of_mul_le_mul_right ?_ hq
    rw [← hbound, ← hvalue]
    exact Nat.mul_le_mul_right q' h
  have hge {a b : Nat} (h : p * b ≤ a * q) : p' * b ≤ a * q' := by
    refine Nat.le_of_mul_le_mul_right ?_ hq
    rw [← hbound, ← hvalue]
    exact Nat.mul_le_mul_right q' h
  have hlt {a b : Nat} (h : a * q < p * b) : a * q' < p' * b := by
    refine Nat.lt_of_mul_lt_mul_right (a := q) ?_
    rw [← hbound, ← hvalue]
    exact Nat.mul_lt_mul_of_pos_right h hq'
  have hgt {a b : Nat} (h : p * b < a * q) : p' * b < a * q' := by
    refine Nat.lt_of_mul_lt_mul_right (a := q) ?_
    rw [← hbound, ← hvalue]
    exact Nat.mul_lt_mul_of_pos_right h hq'
  simp only [Rounds] at h ⊢
  split_ifs at h ⊢
  · exact ⟨hle h.1, hge h.2⟩
  · exact ⟨hlt h.1, hgt h.2⟩

/-- No fraction lies between the midpoints from two magnitudes. -/
lemma Rounds.unique {rank rank' p q : Nat} (h : Rounds rank p q) (h' : Rounds rank' p q)
    (hq : 0 < q) : rank = rank' := by
  have hnot {rank rank' : Nat} (h : Rounds rank p q) (h' : Rounds rank' p q) :
      ¬rank < rank' := by
    intro hlt
    have hlow : units rank ≤ units (rank' - 1) := units_strictMono.monotone (by omega)
    have hhigh : units (rank + 1) ≤ units rank' := units_strictMono.monotone hlt
    have hmid := Nat.mul_le_mul_right q (Nat.add_le_add hlow hhigh)
    simp only [Rounds] at h h'
    split_ifs at h h' with heven heven'
    · -- Two even ranks are not neighbours.
      have hapart : units rank < units (rank' - 1) := units_strictMono (by omega)
      have := Nat.mul_lt_mul_of_pos_right (Nat.add_lt_add_of_lt_of_le hapart hhigh) hq
      omega
    all_goals omega
  exact Nat.le_antisymm (Nat.not_lt.1 (hnot h' h)) (Nat.not_lt.1 (hnot h h'))

lemma tenPower_pos (e : Int) : 0 < (tenPower e).2 := Nat.pow_pos (by decide)

/-- A zero at the end of a coefficient can go to the exponent. -/
lemma tenPower_succ (c : Nat) (e : Int) :
    10 * c * (tenPower e).1 * (tenPower (e + 1)).2 =
      c * (tenPower (e + 1)).1 * (tenPower e).2 := by
  simp only [tenPower, Nat.pow_eq]
  rcases lt_or_ge e 0 with he | he
  · obtain ⟨n, hn⟩ : ∃ n, (-e).toNat = n + 1 := ⟨(-e).toNat - 1, by omega⟩
    have hzero : e.toNat = 0 := by omega
    have hzero' : (e + 1).toNat = 0 := by omega
    have hn' : (-(e + 1)).toNat = n := by omega
    rw [hn, hn', hzero, hzero', Nat.pow_succ]
    ring
  · have hsucc : (e + 1).toNat = e.toNat + 1 := by omega
    have hzero : (-e).toNat = 0 := by omega
    have hzero' : (-(e + 1)).toNat = 0 := by omega
    rw [hsucc, hzero, hzero', Nat.pow_succ]
    ring

/-- The last zeros of a coefficient do not matter. -/
lemma readsAs_trim {rank : Nat} (n : Nat) {d : Decimal} (h : readsAs rank d = true) :
    readsAs rank (d.trim n) = true := by
  induction n generalizing d with
  | zero => exact h
  | succ n ih =>
    rw [Decimal.trim]
    split_ifs with hzero
    · apply ih
      obtain ⟨-, hmod⟩ := hzero
      obtain ⟨c, hc⟩ := Nat.dvd_of_mod_eq_zero hmod
      rw [readsAs_iff] at h ⊢
      refine h.congr (tenPower_pos _) (tenPower_pos _) ?_
      simp only [hc, Nat.mul_div_cancel_left c (show 0 < 10 by decide)]
      exact tenPower_succ c d.exponent
    · exact h

lemma readsAs_numeralOf? {tie : Tie} {rank digits : Nat} {d : Decimal}
    (h : numeralOf? tie rank digits = some d) : readsAs rank d = true := by
  simp only [numeralOf?] at h
  split at h
  · next hbelow habove =>
    split_ifs at h
    · cases h
      exact habove
    · cases h
      exact hbelow
  · next hbelow _ =>
    cases h
    exact hbelow
  · next _ habove =>
    cases h
    exact habove
  · cases h

/-- A magnitude itself lies between the midpoints. -/
lemma rounds_self (rank : Nat) {p q : Nat} (hq : 0 < q) (h : p * unitsInOne = units rank * q) :
    Rounds rank p q := by
  have hlow : units (rank - 1) ≤ units rank := units_strictMono.monotone (Nat.sub_le rank 1)
  have hhigh := units_lt_units_succ rank
  have hvalue : p * (2 * unitsInOne) = (units rank + units rank) * q := by
    rw [Nat.mul_left_comm, h, Nat.add_mul, Nat.two_mul]
  simp only [Rounds, hvalue]
  split_ifs with heven
  · exact ⟨Nat.mul_le_mul_right q (by omega), Nat.mul_le_mul_right q (by omega)⟩
  · have hlow' : units (rank - 1) < units rank := units_strictMono (by omega)
    exact ⟨Nat.mul_lt_mul_of_pos_right (by omega) hq, Nat.mul_lt_mul_of_pos_right (by omega) hq⟩

/-- A fraction of a power of two is one of the same power of ten. -/
lemma exact_fraction (n k : Nat) :
    n * Nat.pow 5 k * (tenPower (-k)).1 * Nat.pow 2 k = n * (tenPower (-k)).2 := by
  have hzero : (-(k : Int)).toNat = 0 := by omega
  have hneg : (-(-(k : Int))).toNat = k := by omega
  simp only [tenPower, hzero, hneg, Nat.pow_eq, Nat.pow_zero, Nat.mul_one]
  rw [Nat.mul_assoc, ← Nat.mul_pow]

/-- The shortest decimal of a magnitude reads as this magnitude. -/
lemma readsAs_shortest (tie : Tie) (rank : Nat) : readsAs rank (shortest tie rank) = true := by
  rw [shortest]
  split_ifs with hzero
  · subst hzero
    rw [readsAs_iff]
    exact rounds_self 0 (tenPower_pos 0) (by simp [units, significand, binade])
  · split
    · next d hd =>
      obtain ⟨i, -, hi⟩ := List.exists_of_findSome?_eq_some hd
      exact readsAs_trim 400 (readsAs_numeralOf? hi)
    · rw [readsAs_iff]
      obtain ⟨k, hk, hunits⟩ := unitsInOne_eq
      refine rounds_self rank (tenPower_pos _) ?_
      rw [hunits, show (-1074 : Int) = -(k : Int) by omega, ← hk]
      exact exact_fraction (units rank) k

end Number

/-! ### Texts of decimals -/

namespace Layout

open Number (tenPower tenPower_pos)

variable {ds es : List Char}

/-- The number that the digits of a text form, and how many of them stand behind the point. -/
def valueOf (cs : List Char) : Nat × Nat :=
  (Nat.ofDigitChars 10 (cs.filter (· != '.')) 0, (cs.dropWhile (· != '.')).tail.length)

lemma bne_point {c : Char} (h : c.isDigit = true) : (c != '.') = true := by
  rw [bne_iff_ne]
  rintro rfl
  cases h

lemma valueOf_whole (hds : ∀ c ∈ ds, c.isDigit = true) :
    valueOf ds = (Nat.ofDigitChars 10 ds 0, 0) := by
  have hne : ∀ c ∈ ds, (c != '.') = true := fun c hc => bne_point (hds c hc)
  rw [valueOf, List.filter_eq_self.2 hne, List.dropWhile_eq_nil_iff.2 hne]
  rfl

lemma valueOf_point (hds : ∀ c ∈ ds, c.isDigit = true) (hes : ∀ c ∈ es, c.isDigit = true) :
    valueOf (ds ++ '.' :: es) = (Nat.ofDigitChars 10 (ds ++ es) 0, es.length) := by
  have hne : ∀ c ∈ ds, (c != '.') = true := fun c hc => bne_point (hds c hc)
  have hne' : ∀ c ∈ es, (c != '.') = true := fun c hc => bne_point (hes c hc)
  rw [valueOf, List.filter_append, List.filter_cons_of_neg (by simp), List.filter_eq_self.2 hne,
    List.filter_eq_self.2 hne', List.dropWhile_append_of_pos hne,
    List.dropWhile_cons_of_neg (by simp), List.tail_cons]

lemma isDigit_of_mem_replicate {n : Nat} : ∀ c ∈ List.replicate n '0', c.isDigit = true := by
  intro c hc
  rw [List.eq_of_mem_replicate hc]
  rfl

lemma positionalText_small {point : Int} (h : point ≤ 0) :
    (positionalText false ds point).toList =
      ['0'] ++ '.' :: (List.replicate (-point).toNat '0' ++ ds) := by
  have htext : positionalText false ds point =
      "0." ++ String.ofList (List.replicate (-point).toNat '0') ++ String.ofList ds := by
    rw [positionalText, if_pos h]
    rfl
  rw [htext]
  simp

lemma positionalText_whole {point : Nat} (hpos : 0 < point) (h : ds.length ≤ point) :
    (positionalText false ds point).toList =
      ds ++ List.replicate (point - ds.length) '0' := by
  have htext : positionalText false ds point = String.ofList (ds.take point) ++
      String.ofList (List.replicate (point - ds.length) '0') := by
    simp only [positionalText, Int.toNat_natCast, List.drop_eq_nil_of_le h]
    rw [if_neg (by omega)]
    rfl
  rw [htext, List.take_of_length_le h]
  simp

lemma positionalText_fraction {point : Nat} (hpos : 0 < point) (h : point < ds.length) :
    (positionalText false ds point).toList = ds.take point ++ '.' :: ds.drop point := by
  have htext : positionalText false ds point = String.ofList (ds.take point) ++
      String.ofList (List.replicate (point - ds.length) '0') ++ "." ++
        String.ofList (ds.drop point) := by
    obtain ⟨c, cs, hdrop⟩ := List.exists_cons_of_ne_nil (l := ds.drop point) (by simpa using h)
    simp only [positionalText, Int.toNat_natCast, hdrop]
    rw [if_neg (by omega)]
    rfl
  rw [htext, Nat.sub_eq_zero_of_le (Nat.le_of_lt h)]
  simp

/-- Digits with a point have the value that their exponent says. -/
lemma valueOf_positionalText (hds : ∀ c ∈ ds, c.isDigit = true) (e : Int) :
    let v := valueOf (positionalText false ds (e + ds.length)).toList
    v.1 * (tenPower e).2 = Nat.ofDigitChars 10 ds 0 * (tenPower e).1 * 10 ^ v.2 := by
  intro v
  have hzeros (n : Nat) : ∀ c ∈ List.replicate n '0', c.isDigit = true :=
    isDigit_of_mem_replicate
  simp only [tenPower, Nat.pow_eq]
  rcases lt_or_ge 0 (e + (ds.length : Int)) with hpoint | hpoint
  · obtain ⟨point, hp⟩ := Int.eq_ofNat_of_zero_le (Int.le_of_lt hpoint)
    by_cases hwhole : ds.length ≤ point
    · have hv : v = (Nat.ofDigitChars 10 (ds ++ List.replicate (point - ds.length) '0') 0, 0) := by
        rw [← valueOf_whole (List.forall_mem_append.2 ⟨hds, hzeros _⟩),
          ← positionalText_whole (by omega) hwhole, ← hp]
      have hexponent : point - ds.length = e.toNat := by omega
      have hzero : (-e).toNat = 0 := by omega
      rw [hv, Nat.ofDigitChars_append, Nat.ofDigitChars_replicate_zero, hexponent, hzero]
      ring
    · have hv : v = (Nat.ofDigitChars 10 ds 0, ds.length - point) := by
        have hbefore : ∀ c ∈ ds.take point, c.isDigit = true :=
          fun c hc => hds c (List.mem_of_mem_take hc)
        have hafter : ∀ c ∈ ds.drop point, c.isDigit = true :=
          fun c hc => hds c (List.mem_of_mem_drop hc)
        have hpart := valueOf_point hbefore hafter
        rw [← positionalText_fraction (by omega) (Nat.not_le.1 hwhole), List.take_append_drop,
          List.length_drop] at hpart
        rw [← hpart, ← hp]
      have hexponent : ds.length - point = (-e).toNat := by omega
      have hzero : e.toNat = 0 := by omega
      rw [hv, hexponent, hzero]
      ring
  · have hv : v = (Nat.ofDigitChars 10 ds 0, (-e).toNat) := by
      have hzero : ∀ c ∈ ['0'], c.isDigit = true := by simp
      have hpart := valueOf_point hzero
        (List.forall_mem_append.2 ⟨hzeros (-(e + ds.length)).toNat, hds⟩)
      have hlength : (-(e + ds.length)).toNat + ds.length = (-e).toNat := by omega
      rw [← positionalText_small hpoint, Nat.ofDigitChars_append, Nat.ofDigitChars_append,
        List.length_append, List.length_replicate, hlength] at hpart
      rw [show v = _ from hpart]
      simp [Nat.ofDigitChars_replicate_zero, Nat.ofDigitChars_cons]
    have hzero : e.toNat = 0 := by omega
    rw [hv, hzero]
    ring

/-- A plain text has the value of its decimal. -/
lemma valueOf_render (d : Decimal) :
    let v := valueOf (plain.render d).toList
    v.1 * (tenPower d.exponent).2 = d.coefficient * (tenPower d.exponent).1 * 10 ^ v.2 := by
  have hdigits : ∀ c ∈ Nat.toDigits 10 d.coefficient, c.isDigit = true := fun c =>
    Nat.isDigit_of_mem_toDigits (by decide) (by decide)
  have hvalue := valueOf_positionalText hdigits d.exponent
  rwa [Nat.ofDigitChars_ten_toDigits] at hvalue

/-- A plain text consists of digits and a point. -/
lemma mem_render_plain (d : Decimal) :
    ∀ c ∈ (plain.render d).toList, c.isDigit = true ∨ c = '.' := by
  have hdigits : ∀ c ∈ Nat.toDigits 10 d.coefficient, c.isDigit = true := fun c =>
    Nat.isDigit_of_mem_toDigits (by decide) (by decide)
  show ∀ c ∈ (positionalText false _ _).toList, _
  generalize Nat.toDigits 10 d.coefficient = ds at hdigits
  intro c hc
  rcases lt_or_ge 0 (d.exponent + (ds.length : Int)) with hpoint | hpoint
  · obtain ⟨point, hp⟩ := Int.eq_ofNat_of_zero_le (Int.le_of_lt hpoint)
    rw [hp] at hc
    by_cases hwhole : ds.length ≤ point
    · rw [positionalText_whole (by omega) hwhole, List.mem_append] at hc
      exact .inl (hc.elim (hdigits c) (isDigit_of_mem_replicate c))
    · rw [positionalText_fraction (by omega) (Nat.not_le.1 hwhole), List.mem_append,
        List.mem_cons] at hc
      rcases hc with hc | rfl | hc
      · exact .inl (hdigits c (List.mem_of_mem_take hc))
      · exact .inr rfl
      · exact .inl (hdigits c (List.mem_of_mem_drop hc))
  · rw [positionalText_small hpoint] at hc
    simp only [List.mem_append, List.mem_cons, List.not_mem_nil, or_false] at hc
    rcases hc with rfl | rfl | hc | hc
    · exact .inl rfl
    · exact .inr rfl
    · exact .inl (isDigit_of_mem_replicate c hc)
    · exact .inl (hdigits c hc)

end Layout

namespace Number

/-! ### Texts of magnitudes -/

/-- The text of a magnitude. -/
def magnitudeText (rank : Nat) : String :=
  if rank = infinityRank then "inf" else Layout.plain.render (shortest Layout.plain.tie rank)

lemma render_ranked (negative : Bool) (rank : Fin (infinityRank + 1)) :
    (ranked negative rank).render = (if negative then "-" else "") ++ magnitudeText rank := by
  rw [render, magnitudeText]
  by_cases h : rank.val = infinityRank
  · rw [if_pos h, if_pos h]
    cases negative <;> rfl
  · rw [if_neg h, if_neg h]
    rfl

/-- The text of a finite magnitude starts with a digit. -/
lemma head_magnitudeText (rank : Nat) : ∃ c cs, (magnitudeText rank).toList = c :: cs ∧
    (rank = infinityRank ∧ c = 'i' ∨ rank ≠ infinityRank ∧ c.isDigit = true) := by
  rw [magnitudeText]
  split_ifs with h
  · exact ⟨'i', ['n', 'f'], rfl, .inl ⟨h, rfl⟩⟩
  · obtain ⟨c, cs, htext, hc⟩ := Json.head_render .plain (shortest Layout.plain.tie rank)
    exact ⟨c, cs, htext, .inr ⟨h, hc⟩⟩

/-- Different magnitudes have different texts. -/
lemma magnitudeText_injective : Function.Injective magnitudeText := by
  intro rank rank' h
  obtain ⟨c, cs, hc, hhead⟩ := head_magnitudeText rank
  obtain ⟨c', cs', hc', hhead'⟩ := head_magnitudeText rank'
  rw [h, hc'] at hc
  obtain ⟨rfl, -⟩ := List.cons.inj hc
  rcases hhead with ⟨hrank, rfl⟩ | ⟨hrank, hdigit⟩ <;>
    rcases hhead' with ⟨hrank', hi⟩ | ⟨hrank', hdigit'⟩
  · rw [hrank, hrank']
  · cases hdigit'
  · subst hi
    cases hdigit
  · rw [magnitudeText, if_neg hrank, magnitudeText, if_neg hrank'] at h
    have hrounds (rank : Nat) := readsAs_iff.1 (readsAs_shortest Layout.plain.tie rank)
    have hvalue := Layout.valueOf_render (shortest Layout.plain.tie rank)
    have hvalue' := Layout.valueOf_render (shortest Layout.plain.tie rank')
    rw [h] at hvalue
    have hpos (n : Nat) : 0 < 10 ^ n := Nat.pow_pos (by decide)
    refine ((hrounds rank).congr (tenPower_pos _) (hpos _) hvalue.symm).unique ?_ (hpos _)
    exact (hrounds rank').congr (tenPower_pos _) (hpos _) hvalue'.symm

lemma toList_magnitudeText_ne (rank : Nat) (cs : List Char) :
    (magnitudeText rank).toList ≠ '-' :: cs ∧ (magnitudeText rank).toList ≠ 'N' :: cs := by
  obtain ⟨c, cs', htext, hhead⟩ := head_magnitudeText rank
  rw [htext]
  constructor <;>
  · intro h
    obtain ⟨rfl, -⟩ := List.cons.inj h
    rcases hhead with ⟨-, hc⟩ | ⟨-, hc⟩ <;> exact absurd hc (by decide)

/-- What is no number has a text of its own. -/
lemma render_ranked_ne (negative : Bool) (rank : Fin (infinityRank + 1)) :
    (ranked negative rank).render ≠ nan.render := by
  intro h
  have htext := congrArg String.toList h
  rw [render_ranked, String.toList_append] at htext
  cases negative with
  | false => exact (toList_magnitudeText_ne rank _).2 htext
  | true => exact absurd (List.cons.inj htext).1 (by decide)

/-- Different numbers have different texts. -/
theorem render_injective : Function.Injective render := by
  intro x y h
  match x, y with
  | nan, nan => rfl
  | nan, ranked negative rank => exact absurd h.symm (render_ranked_ne negative rank)
  | ranked negative rank, nan => exact absurd h (render_ranked_ne negative rank)
  | ranked negative rank, ranked negative' rank' =>
    have htext := congrArg String.toList h
    rw [render_ranked, render_ranked, String.toList_append, String.toList_append] at htext
    have hrank (h : (magnitudeText rank).toList = (magnitudeText rank').toList) : rank = rank' :=
      Fin.ext (magnitudeText_injective (String.toList_inj.1 h))
    cases negative <;> cases negative'
    · rw [hrank htext]
    · exact absurd htext (toList_magnitudeText_ne rank _).1
    · exact absurd htext.symm (toList_magnitudeText_ne rank' _).1
    · rw [hrank (List.cons.inj htext).2]

/-- The text of a number stands on one line. -/
lemma lineFeed_notMem_render (x : Number) : '\n' ∉ x.render.toList := by
  have hmagnitude (rank : Nat) : '\n' ∉ (magnitudeText rank).toList := by
    rw [magnitudeText]
    split_ifs
    · decide
    · intro h
      rcases Layout.mem_render_plain _ _ h with h | h <;> exact absurd h (by decide)
  cases x with
  | nan => decide
  | ranked negative rank =>
    rw [render_ranked, String.toList_append, List.mem_append, not_or]
    refine ⟨?_, hmagnitude rank⟩
    cases negative <;> decide

/-- It starts with a digit, or with one of the letters of the words, or with a sign. -/
lemma head_render (x : Number) : ∃ c cs, x.render.toList = c :: cs ∧
    (c.isDigit = true ∨ c ∈ ['i', 'N', '-']) := by
  cases x with
  | nan => exact ⟨'N', _, rfl, .inr (by decide)⟩
  | ranked negative rank =>
    rw [render_ranked, String.toList_append]
    cases negative with
    | true => exact ⟨'-', _, rfl, .inr (by decide)⟩
    | false =>
      obtain ⟨c, cs, htext, hhead⟩ := head_magnitudeText rank
      refine ⟨c, cs, htext, ?_⟩
      rcases hhead with ⟨-, rfl⟩ | ⟨-, hc⟩
      · exact .inr (by decide)
      · exact .inl hc

end Number

end ScriptGraph
