import Mathlib.Tactic.SplitIfs
import ScriptGraph.Proofs.Json.Text

/-!
# Reading scalars back

A scalar is read without a look at what comes after it, unless that prolongs a numeral
(`scalar?_append`). The texts of strings and of natural numbers are read as what they were written
for.
-/

namespace ScriptGraph.Json

/-- A bind succeeds if and only if both of its parts do. -/
lemma bind_eq_ok {x : Except Fault α} {f : α → Except Fault β} {b : β} :
    (x >>= f) = .ok b ↔ ∃ a, x = .ok a ∧ f a = .ok b := by
  cases x <;> simp [bind, Except.bind]

@[simp] lemma pure_eq_ok {a b : α} : (pure a : Except Fault α) = .ok b ↔ a = b := by
  simp [pure, Except.pure]

/-! ### What comes after a scalar -/

/-- Whether a text does not prolong a numeral that stands before it. -/
def Delimited (rest : List Char) : Prop :=
  ∀ c ∈ rest.head?, c.isDigit = false ∧ c ≠ '.' ∧ c ≠ 'e' ∧ c ≠ 'E'

lemma Delimited.nil : Delimited [] := by simp [Delimited]

lemma expectWord_append {w cs left : List Char} (rest : List Char)
    (h : expectWord w cs = .ok left) : expectWord w (cs ++ rest) = .ok (left ++ rest) := by
  induction w generalizing cs with
  | nil =>
    obtain rfl : cs = left := by simpa [expectWord] using h
    rfl
  | cons c w ih =>
    cases cs with
    | nil => simp [expectWord] at h
    | cons d cs =>
      simp only [expectWord, List.cons_append] at h ⊢
      split_ifs at h ⊢ with hcd
      exact ih h

lemma chars_append {strict : Bool} {p : Place} {cs s left : List Char} (rest : List Char)
    (h : chars strict p cs = .ok (s, left)) :
    chars strict p (cs ++ rest) = .ok (s, left ++ rest) := by
  induction cs generalizing p s left with
  | nil => cases p <;> simp [chars] at h
  | cons c cs ih =>
    -- a character read before the rest of the string
    have read {p : Place} {s left : List Char} (f : List Char → List Char)
        (h : (do let a ← chars strict p cs; return (f a.1, a.2)) = .ok (s, left)) :
        (do let a ← chars strict p (cs ++ rest); return (f a.1, a.2)) = .ok (s, left ++ rest) := by
      obtain ⟨a, hs, h⟩ := bind_eq_ok.1 h
      exact bind_eq_ok.2 ⟨_, ih hs, by simp_all⟩
    cases p with
    | text =>
      simp only [chars, List.cons_append] at h ⊢
      split_ifs at h ⊢
      · simp_all
      · exact ih h
      · exact read (c :: ·) h
    | escape =>
      simp only [chars, List.cons_append] at h ⊢
      split at h
      · next d hd => exact read (d :: ·) h
      · split_ifs at h ⊢
        exact ih h
    | digits lead count value =>
      simp only [chars, List.cons_append] at h ⊢
      split at h
      · simp at h
      · split_ifs at h ⊢
        · exact ih h
        · obtain ⟨p, hp, h⟩ := bind_eq_ok.1 h
          exact bind_eq_ok.2 ⟨p, hp, read (p.2 ++ ·) h⟩
        · exact ih h
    | pair lead =>
      simp only [chars, List.cons_append] at h ⊢
      split_ifs at h ⊢
      exact ih h
    | pairMark lead =>
      simp only [chars, List.cons_append] at h ⊢
      split_ifs at h ⊢
      exact ih h

lemma stringBody_append {cs left : List Char} {s : String} (rest : List Char)
    (h : stringBody cs = .ok (s, left)) : stringBody (cs ++ rest) = .ok (s, left ++ rest) := by
  obtain ⟨⟨s', r⟩, hs, h⟩ := bind_eq_ok.1 h
  exact bind_eq_ok.2 ⟨_, chars_append rest hs, by simp_all⟩

/-! ### What comes after a numeral -/

section Numeral

variable {rest : List Char} (hr : Delimited rest)

include hr

lemma Delimited.takeDigits_append (n : Nat) (cs : List Char) :
    takeDigits n (cs ++ rest) =
      ((takeDigits n cs).1, (takeDigits n cs).2.1, (takeDigits n cs).2.2 ++ rest) := by
  induction cs generalizing n with
  | nil =>
    cases rest with
    | nil => rfl
    | cons c rest => simp [takeDigits, (hr c rfl).1]
  | cons c cs ih =>
    simp only [takeDigits, List.cons_append]
    split_ifs
    · simp [ih]
    · simp

lemma Delimited.takeWhile_isDigit_append (cs : List Char) :
    (cs ++ rest).takeWhile Char.isDigit = cs.takeWhile Char.isDigit := by
  induction cs with
  | nil =>
    cases rest with
    | nil => rfl
    | cons c rest => simp [(hr c rfl).1]
  | cons c cs ih => simp [List.takeWhile_cons, ih]

lemma Delimited.dropWhile_isDigit_append (cs : List Char) :
    (cs ++ rest).dropWhile Char.isDigit = cs.dropWhile Char.isDigit ++ rest := by
  induction cs with
  | nil =>
    cases rest with
    | nil => rfl
    | cons c rest => simp [(hr c rfl).1]
  | cons c cs ih =>
    simp only [List.cons_append, List.dropWhile_cons, ih]
    split_ifs <;> rfl

lemma Delimited.dropDigits_append (cs : List Char) :
    dropDigits (cs ++ rest) = ((dropDigits cs).1, (dropDigits cs).2 ++ rest) := by
  simp [dropDigits, hr.takeWhile_isDigit_append, hr.dropWhile_isDigit_append]

/-- A mark at the start of the whole text does not come from what is after the numeral. -/
lemma Delimited.head_append {c : Char} (hc : c = '.' ∨ c = 'e' ∨ c = 'E') {cs : List Char} :
    (cs ++ rest).head? = some c ↔ cs.head? = some c := by
  cases cs with
  | cons d cs => rfl
  | nil =>
    refine ⟨fun h => ?_, fun h => by simp at h⟩
    obtain ⟨-, h₁, h₂, h₃⟩ := hr c h
    simp_all

lemma Delimited.append_ne_cons {c : Char} (hc : c = '.' ∨ c = 'e' ∨ c = 'E') {cs : List Char}
    (h : ∀ ds, cs = c :: ds → False) (ds : List Char) : cs ++ rest = c :: ds → False := by
  intro hds
  obtain ⟨ds', rfl⟩ := List.head?_eq_some_iff.1 <|
    (hr.head_append hc).1 (List.head?_eq_some_iff.2 ⟨ds, hds⟩)
  exact h _ rfl

lemma Delimited.any_isDigit_append (cs : List Char) :
    (cs ++ rest).head?.any Char.isDigit = cs.head?.any Char.isDigit := by
  cases cs with
  | cons d cs => rfl
  | nil =>
    cases rest with
    | nil => rfl
    | cons c rest => simp [(hr c rfl).1]

variable {negative : Bool} {n : Nat} {e : Int} {x : Number} {v : Value} {cs left : List Char}

lemma Delimited.exponentPart_append (h : exponentPart negative n e cs = .ok (x, left)) :
    exponentPart negative n e (cs ++ rest) = .ok (x, left ++ rest) := by
  have split : Number.splitSign (cs ++ rest) =
      ((Number.splitSign cs).1, (Number.splitSign cs).2 ++ rest) := by
    cases cs with
    | nil => simp [exponentPart, Number.splitSign] at h
    | cons c cs => unfold Number.splitSign; split <;> simp_all
  simp only [exponentPart, split] at h ⊢
  cases hd : (Number.splitSign cs).2 with
  | nil => simp [hd] at h
  | cons d ds =>
    simp only [hd, List.cons_append] at h ⊢
    rw [← List.cons_append, hr.takeWhile_isDigit_append, hr.dropWhile_isDigit_append]
    split_ifs at h ⊢
    · simp_all
    · obtain ⟨y, hy, h⟩ := bind_eq_ok.1 h
      exact bind_eq_ok.2 ⟨y, hy, by simp_all⟩
    · obtain ⟨y, hy, h⟩ := bind_eq_ok.1 h
      exact bind_eq_ok.2 ⟨y, hy, by simp_all⟩

lemma Delimited.finish_append (h : finish negative n e cs = .ok (x, left)) :
    finish negative n e (cs ++ rest) = .ok (x, left ++ rest) := by
  unfold finish at h
  split at h
  · exact hr.exponentPart_append h
  · exact hr.exponentPart_append h
  · next hle hue =>
    obtain ⟨y, hy, h⟩ := bind_eq_ok.1 h
    obtain ⟨rfl, rfl⟩ : y = x ∧ cs = left := by simpa using h
    rw [finish]
    · exact bind_eq_ok.2 ⟨y, hy, rfl⟩
    · exact hr.append_ne_cons (.inr (.inl rfl)) hle
    · exact hr.append_ne_cons (.inr (.inr rfl)) hue

lemma Delimited.fractionPart_append (h : fractionPart negative n e cs = .ok (x, left)) :
    fractionPart negative n e (cs ++ rest) = .ok (x, left ++ rest) := by
  simp only [fractionPart, hr.takeDigits_append, hr.dropDigits_append] at h ⊢
  split_ifs at h ⊢
  exact hr.finish_append h

lemma Delimited.afterWhole_append {dropped : Nat}
    (h : afterWhole negative n dropped cs = .ok (v, left)) :
    afterWhole negative n dropped (cs ++ rest) = .ok (v, left ++ rest) := by
  unfold afterWhole at h
  split at h
  · obtain ⟨⟨y, r⟩, hy, h⟩ := bind_eq_ok.1 h
    exact bind_eq_ok.2 ⟨_, hr.fractionPart_append hy, by simp_all⟩
  · next hp =>
    rw [afterWhole]
    · simp only [hr.head_append (.inr (.inl rfl)), hr.head_append (.inr (.inr rfl))]
      dsimp only at h
      split_ifs at h ⊢
      · simp_all
      · obtain ⟨⟨y, r⟩, hy, h⟩ := bind_eq_ok.1 h
        exact bind_eq_ok.2 ⟨_, hr.finish_append hy, by simp_all⟩
    · exact hr.append_ne_cons (.inl rfl) hp

lemma Delimited.numeral_append (h : numeral negative cs = .ok (v, left)) :
    numeral negative (cs ++ rest) = .ok (v, left ++ rest) := by
  unfold numeral at h
  split at h
  · simp at h
  · simp only [numeral, List.cons_append, hr.any_isDigit_append]
    split_ifs at h ⊢
    exact hr.afterWhole_append h
  · next c cs hc =>
    rw [List.cons_append, numeral]
    · simp only [hr.takeDigits_append, hr.dropDigits_append]
      split_ifs at h ⊢
      exact hr.afterWhole_append h
    · exact hc

/-- A scalar is read without a look at what comes after it. -/
theorem Delimited.scalar?_append (h : scalar? cs = some (.ok (v, left))) :
    scalar? (cs ++ rest) = some (.ok (v, left ++ rest)) := by
  have word {w cs : List Char} {u : Value}
      (h : (do return (u, ← expectWord w cs)) = Except.ok (v, left)) :
      (do return (u, ← expectWord w (cs ++ rest))) = Except.ok (v, left ++ rest) := by
    obtain ⟨r, hw, h⟩ := bind_eq_ok.1 h
    exact bind_eq_ok.2 ⟨_, expectWord_append rest hw, by simp_all⟩
  unfold scalar? at h
  split at h
  · exact congrArg some (word (Option.some.inj h))
  · exact congrArg some (word (Option.some.inj h))
  · exact congrArg some (word (Option.some.inj h))
  · exact congrArg some (hr.numeral_append (Option.some.inj h))
  · obtain ⟨⟨s, r⟩, hs, h⟩ := bind_eq_ok.1 (Option.some.inj h)
    exact congrArg some (bind_eq_ok.2 ⟨_, stringBody_append rest hs, by simp_all⟩)
  · rw [List.cons_append, scalar?]
    · split_ifs at h ⊢
      exact congrArg some (hr.numeral_append (Option.some.inj h))
    all_goals assumption
  · simp at h

end Numeral

/-! ### Texts of strings -/

lemma hexValue?_digitChar : ∀ n < 16, hexValue? n.digitChar = some n := by decide

/-- The number of a control character is written with two digits. -/
lemma toList_hexadecimal : ∀ n < 0x20,
    ((if n < 0x10 then "0" else "") ++ Quoted.hexadecimal n).toList =
      [(n / 16).digitChar, (n % 16).digitChar] := by
  decide

/-- An escape by number, here of a character below all halves of pairs, is read as the character. -/
lemma chars_number {a b : Char} {d e : Nat} (ha : hexValue? a = some d) (hb : hexValue? b = some e)
    (h : d * 16 + e < 0xD800) (cs : List Char) :
    chars true .text ('\\' :: 'u' :: '0' :: '0' :: a :: b :: cs) =
      (do let (s, rest) ← chars true .text cs; return (Char.ofNat (d * 16 + e) :: s, rest)) := by
  have hu : shortEscape? 'u' = none := rfl
  have zero : hexValue? '0' = some 0 := rfl
  have trail : isTrail (d * 16 + e) = false := by simp [isTrail]; omega
  have lead : isLead (d * 16 + e) = false := by simp [isLead]; omega
  simp [chars, hu, zero, ha, hb, complete, trail, lead, bind, Except.bind]

/-- Each character is read from its written form. -/
lemma chars_escape (c : Char) (cs : List Char) :
    chars true .text ((escape c).toList ++ cs) =
      (do let (s, rest) ← chars true .text cs; return (c :: s, rest)) := by
  unfold escape
  split
  iterate 7 simp [chars, shortEscape?]
  next hq hb _ _ _ _ _ =>
  by_cases hc : c.toNat < 0x20
  · have hd : c.toNat / 16 < 16 := by omega
    have hm : c.toNat % 16 < 16 := by omega
    have hn : c.toNat / 16 * 16 + c.toNat % 16 = c.toNat := by omega
    rw [if_pos hc, String.append_assoc, String.toList_append, toList_hexadecimal _ hc]
    have read := chars_number (hexValue?_digitChar _ hd) (hexValue?_digitChar _ hm) (by omega) cs
    rw [hn, Char.ofNat_toNat] at read
    exact read
  · have text : c.toString.toList = [c] := by simp
    rw [if_neg hc, text, List.singleton_append, chars, if_neg hq, if_neg hb, if_neg hc]

lemma chars_escaped (cs rest : List Char) :
    chars true .text (cs.flatMap (fun c => (escape c).toList) ++ '"' :: rest) = .ok (cs, rest) := by
  induction cs with
  | nil => simp [chars]
  | cons c cs ih =>
    rw [List.flatMap_cons, List.append_assoc, chars_escape, ih]
    rfl

lemma toList_renderString (s : String) :
    (renderString s).toList = '"' :: (s.toList.flatMap (fun c => (escape c).toList) ++ ['"']) := by
  simp [renderString, String.toList_join, List.flatMap_map]

lemma stringBody_renderString (s : String) (rest : List Char) :
    stringBody ((renderString s).toList.tail ++ rest) = .ok (s, rest) := by
  rw [toList_renderString, List.tail_cons, List.append_assoc]
  exact bind_eq_ok.2 ⟨_, chars_escaped s.toList rest, by simp⟩

lemma scalar?_renderString (s : String) :
    scalar? (renderString s).toList = some (.ok (.string s, [])) := by
  have h := stringBody_renderString s []
  rw [toList_renderString] at h ⊢
  rw [List.append_nil] at h
  exact congrArg some (bind_eq_ok.2 ⟨_, h, rfl⟩)

/-! ### Texts of natural numbers -/

lemma le_wordMax_of_lt {n : Nat} (h : n < wordLimit) : n ≤ wordMax :=
  Nat.le_of_lt (Nat.lt_trans h (by decide))

lemma takeDigits_of_le {cs : List Char} (hd : ∀ c ∈ cs, c.isDigit = true) (n : Nat)
    (h : Nat.ofDigitChars 10 cs n ≤ wordMax) :
    takeDigits n cs = (Nat.ofDigitChars 10 cs n, cs.length, []) := by
  induction cs generalizing n with
  | nil => rfl
  | cons c cs ih =>
    have comm : 10 * n + (c.toNat - '0'.toNat) = n * 10 + digitValue c := by
      rw [Nat.mul_comm]; rfl
    rw [Nat.ofDigitChars_cons, comm] at h ⊢
    -- further digits only make the number larger
    have hle : n * 10 + digitValue c ≤ wordMax := by
      rw [Nat.ofDigitChars_eq_ofDigitChars_zero] at h
      have hp : 0 < 10 ^ cs.length := Nat.pow_pos (by decide)
      have := Nat.le_mul_of_pos_left (n * 10 + digitValue c) hp
      omega
    have hc : c.isDigit = true := hd c List.mem_cons_self
    simp [takeDigits, hc, hle, ih (fun c hc => hd c (List.mem_cons_of_mem _ hc)) _ h]

/-- Only zero is written with a zero in front. -/
lemma head?_toDigits {n : Nat} (h : 0 < n) : (Nat.toDigits 10 n).head? ≠ some '0' := by
  induction n using Nat.strongRecOn with
  | ind n ih =>
    rw [Nat.toDigits_eq_if (by decide)]
    split_ifs with hn
    · simp; omega
    · have hne : Nat.toDigits 10 (n / 10) ≠ [] := Nat.toDigits_ne_nil
      have := ih (n / 10) (by omega) (by omega)
      rw [List.head?_append, ne_eq, Option.or_eq_some_iff]
      simp_all

lemma scalar?_of_isDigit {c : Char} (h : c.isDigit = true) (cs : List Char) :
    scalar? (c :: cs) = some (numeral false (c :: cs)) := by
  rw [scalar?, if_pos h]
  all_goals rintro rfl; simp at h

lemma scalar?_natural {n : Nat} (h : n ≤ wordMax) :
    scalar? (toString n).toList = some (.ok (.natural n, [])) := by
  rw [Nat.toString_eq_ofList_toDigits, String.toList_ofList]
  rcases Nat.eq_zero_or_pos n with rfl | hn
  · rfl
  have digits {c : Char} (hc : c ∈ Nat.toDigits 10 n) : c.isDigit = true :=
    Nat.isDigit_of_mem_toDigits (by decide) (by decide) hc
  have value : Nat.ofDigitChars 10 (Nat.toDigits 10 n) 0 = n := Nat.ofDigitChars_ten_toDigits
  have head := head?_toDigits hn
  cases ht : Nat.toDigits 10 n with
  | nil => exact absurd ht Nat.toDigits_ne_nil
  | cons c cs =>
    simp only [ht] at digits value head
    have hc : c.isDigit = true := digits List.mem_cons_self
    have tail : Nat.ofDigitChars 10 cs (digitValue c) = n := by
      simpa [Nat.ofDigitChars_cons, digitValue] using value
    have read : takeDigits (digitValue c) cs = (n, cs.length, []) := by
      rw [takeDigits_of_le (fun c hc => digits (List.mem_cons_of_mem _ hc)) _ (by omega), tail]
    rw [scalar?_of_isDigit hc, numeral]
    · simp [hc, read, dropDigits, afterWhole, integer]
    · rintro rfl; exact head rfl

/-! ### Texts of numbers -/

lemma renderNumber_of_not_isFinite {x : Number} (h : x.isFinite = false) :
    renderNumber x = "null" := by
  cases x with
  | nan => rfl
  | ranked negative r =>
    have hr : r.val = infinityRank := by
      have := r.isLt
      simp only [Number.isFinite, decide_eq_false_iff_not] at h
      omega
    rw [renderNumber, if_pos hr]

/-- A written decimal starts with a digit. -/
lemma head_render (layout : Layout) (d : Decimal) :
    ∃ c cs, (layout.render d).toList = c :: cs ∧ c.isDigit = true := by
  have digits {c : Char} (hc : c ∈ Nat.toDigits 10 d.coefficient) : c.isDigit = true :=
    Nat.isDigit_of_mem_toDigits (by decide) (by decide) hc
  cases ht : Nat.toDigits 10 d.coefficient with
  | nil => exact absurd ht Nat.toDigits_ne_nil
  | cons c cs =>
    have hc : c.isDigit = true := digits (ht ▸ List.mem_cons_self)
    simp only [Layout.render, ht]
    split
    · unfold Layout.positionalText
      split
      · exact ⟨'0', _, by simp; rfl, rfl⟩
      · next hp =>
        obtain ⟨k, hk⟩ : ∃ k, (d.exponent + ((c :: cs).length : Nat)).toNat = k + 1 :=
          ⟨_, (Nat.succ_pred_eq_of_pos (by omega)).symm⟩
        simp only [hk]
        split
        · split
          · exact ⟨c, _, by simp; rfl, hc⟩
          · exact ⟨c, _, by simp; rfl, hc⟩
        · exact ⟨c, _, by simp; rfl, hc⟩
    · exact ⟨c, _, by simp [Layout.exponentText]; rfl, hc⟩

lemma isBlank_of_isDigit {c : Char} (h : c.isDigit = true) : isBlank c = false := by
  rw [Bool.eq_false_iff]
  intro hb
  simp only [isBlank, Bool.or_eq_true, beq_iff_eq] at hb
  rcases hb with ((rfl | rfl) | rfl) | rfl <;> simp at h

lemma skipBlanks_renderNumber (x : Number) :
    skipBlanks (renderNumber x).toList = (renderNumber x).toList := by
  cases x with
  | nan => rfl
  | ranked negative r =>
    simp only [renderNumber]
    split_ifs
    · rfl
    · obtain ⟨c, cs, ht, hc⟩ :=
        head_render .interchange (Number.shortest Layout.interchange.tie r.val)
      simp only [Number.renderRank, String.toList_append, ht]
      cases negative with
      | false => exact skipBlanks_cons (isBlank_of_isDigit hc) cs
      | true => exact skipBlanks_cons (c := '-') rfl (c :: cs)

/-- A scalar starts neither with a blank nor with a closing bracket. -/
lemma head_of_scalar? {cs : List Char} {r : Except Fault (Value × List Char)}
    (h : scalar? cs = some r) :
    ∃ c cs', cs = c :: cs' ∧ isBlank c = false ∧ c ≠ ']' := by
  unfold scalar? at h
  split at h
  iterate 5 exact ⟨_, _, rfl, rfl, by decide⟩
  · split_ifs at h with hc
    refine ⟨_, _, rfl, isBlank_of_isDigit hc, ?_⟩
    rintro rfl
    simp at hc
  · simp at h

end ScriptGraph.Json
