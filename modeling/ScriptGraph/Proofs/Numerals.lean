import ScriptGraph.Proofs.Characters

/-!
# Numerals go as far as they can

A text that starts with a digit starts with a numeral, which the scanner takes as far as there is a
longer one. Without its separators it consists of digits, and a point and more digits may follow
them, so it has a number. A point that is not part of the numeral is the next token.
-/

namespace ScriptGraph

open ScriptGraph.Symbol (codePoint spell)

/-! ### Forms of numerals -/

/-- At least one digit, and nothing else. -/
def IsDigitRun (cs : List Nat) : Prop := cs ≠ [] ∧ ∀ c ∈ cs, IsDigit c

/-- A numeral without separators. -/
inductive IsDecimal : List Nat → Prop
  | whole {cs : List Nat} (hcs : IsDigitRun cs) : IsDecimal cs
  | point {cs ds : List Nat} (hcs : IsDigitRun cs) (hds : IsDigitRun ds) :
      IsDecimal (cs ++ 0x2E :: ds)

/-- How a numeral goes on, which may have its point already. -/
inductive Continues : Bool → List Nat → Prop
  | nil (seenPoint : Bool) : Continues seenPoint []
  | digit {seenPoint : Bool} {c : Nat} {cs : List Nat} (hc : IsDigit c ∨ c = 0x5F)
      (h : Continues seenPoint cs) : Continues seenPoint (c :: cs)
  | point {c : Nat} {cs : List Nat} (hc : IsDigit c) (h : Continues true (c :: cs)) :
      Continues false (0x2E :: c :: cs)

variable {cs ds : List Nat} {c : Nat} {seenPoint : Bool}

lemma not_isDigit_point : ¬(IsDigit 0x2E ∨ 0x2E = 0x5F) := by
  rintro (⟨h, -⟩ | h) <;> omega

lemma continues_of_digits (hcs : ∀ d ∈ cs, IsDigit d ∨ d = 0x5F) (h : Continues seenPoint ds) :
    Continues seenPoint (cs ++ ds) := by
  induction cs with
  | nil => exact h
  | cons c cs ih =>
    obtain ⟨hc, hcs⟩ := List.forall_mem_cons.1 hcs
    exact .digit hc (ih hcs)

/-- After the point there are digits and separators only. -/
lemma digits_of_continues (h : Continues true cs) : ∀ d ∈ cs, IsDigit d ∨ d = 0x5F := by
  generalize hseen : true = seenPoint at h
  induction h with
  | nil => simp
  | digit hc _ ih => exact List.forall_mem_cons.2 ⟨hc, ih hseen⟩
  | point => cases hseen

/-- A numeral is a digit and how it goes on. -/
lemma isNumeral_cons : IsNumeral (c :: cs) ↔ IsDigit c ∧ Continues false cs := by
  constructor
  · generalize hn : c :: cs = numeral
    rintro (⟨⟨hc, hcs⟩⟩ | ⟨⟨hc, hcs⟩, ⟨hd, hds⟩⟩)
    · obtain ⟨rfl, rfl⟩ := List.cons.inj hn
      have hwhole := continues_of_digits hcs (.nil false)
      rw [List.append_nil] at hwhole
      exact ⟨hc, hwhole⟩
    · obtain ⟨rfl, rfl⟩ := List.cons.inj hn
      have hfraction := continues_of_digits hds (.nil true)
      rw [List.append_nil] at hfraction
      exact ⟨hc, continues_of_digits hcs (.point hd (.digit (.inl hd) hfraction))⟩
  · rintro ⟨hc, h⟩
    -- The digits before the point are collected on the left.
    suffices hsplit : ∀ ds, (∀ d ∈ ds, IsDigit d ∨ d = 0x5F) → IsNumeral (c :: (ds ++ cs)) from
      hsplit [] (by simp)
    generalize hseen : false = seenPoint at h
    induction h with
    | nil =>
      intro ds hds
      rw [List.append_nil]
      exact .whole ⟨hc, hds⟩
    | @digit _ d cs hd _ ih =>
      intro ds hds
      have hsnoc := ih hseen (ds ++ [d])
      rw [List.append_assoc, List.singleton_append] at hsnoc
      exact hsnoc (List.forall_mem_append.2 ⟨hds, List.forall_mem_singleton.2 hd⟩)
    | @point d es hd h =>
      intro ds hds
      obtain ⟨-, hes⟩ := List.forall_mem_cons.1 (digits_of_continues h)
      have hwhole : IsDigits (c :: ds) := ⟨hc, hds⟩
      exact .point hwhole ⟨hd, hes⟩

lemma continues_cons_digit (hc : IsDigit c ∨ c = 0x5F) :
    Continues seenPoint (c :: cs) ↔ Continues seenPoint cs := by
  constructor
  · intro h
    cases h with
    | digit _ h => exact h
    | point => exact absurd hc not_isDigit_point
  · exact .digit hc

/-- Where no digit and no separator comes next, a point with a digit behind it does. -/
lemma of_continues_cons (hc : ¬(IsDigit c ∨ c = 0x5F)) (h : Continues seenPoint (c :: cs)) :
    c = 0x2E ∧ seenPoint = false ∧ (∃ d ∈ cs.head?, IsDigit d) ∧ Continues true cs := by
  cases h with
  | digit hc' => exact absurd hc' hc
  | point hd h => exact ⟨rfl, rfl, ⟨_, rfl, hd⟩, h⟩

/-- Only one point stands in a numeral, and a digit after it. -/
lemma IsNumeral.point_inj (h : IsNumeral (cs ++ 0x2E :: ds)) : 0x2E ∉ cs ∧ IsDigits ds := by
  have hdigits {cs : List Nat} (hcs : IsDigits cs) : 0x2E ∉ cs := by
    obtain ⟨hc, hcs⟩ := hcs
    rw [List.mem_cons, not_or]
    refine ⟨fun heq => not_isDigit_point (.inl (heq ▸ hc)), fun hmem => ?_⟩
    exact not_isDigit_point (hcs _ hmem)
  generalize hn : cs ++ 0x2E :: ds = numeral at h
  cases h with
  | whole hwhole => exact absurd (hn ▸ List.mem_append_right cs List.mem_cons_self) (hdigits hwhole)
  | @point whole fraction hwhole hfraction =>
    have hpoint : 0x2E ∉ whole := hdigits hwhole
    have hpoint' : 0x2E ∉ fraction := hdigits hfraction
    rcases List.append_eq_append_iff.1 hn with ⟨more, rfl, htail⟩ | ⟨more, rfl, htail⟩
    · cases more with
      | nil =>
        obtain ⟨-, rfl⟩ := List.cons.inj htail
        exact ⟨by simpa using hpoint, hfraction⟩
      | cons d more =>
        obtain ⟨rfl, -⟩ := List.cons.inj htail
        exact absurd (by simp) hpoint
    · cases more with
      | nil =>
        obtain ⟨-, rfl⟩ := List.cons.inj htail
        exact ⟨by simpa using hpoint, hfraction⟩
      | cons d more =>
        obtain ⟨-, rfl⟩ := List.cons.inj htail
        exact absurd (by simp) hpoint'

lemma IsDigits.head (h : IsDigits cs) : ∃ d ∈ cs.head?, IsDigit d := by
  obtain ⟨hc, -⟩ := h
  exact ⟨_, rfl, hc⟩

lemma IsDigits.filter (h : IsDigits cs) : IsDigitRun (cs.filter (· != 0x5F)) := by
  obtain @⟨c, cs, hc, hcs⟩ := h
  have hfirst : (c != 0x5F) = true := by
    have := hc.2
    rw [bne_iff_ne]
    omega
  rw [List.filter_cons, if_pos hfirst]
  refine ⟨List.cons_ne_nil _ _, List.forall_mem_cons.2 ⟨hc, ?_⟩⟩
  intro d hd
  obtain ⟨hmem, hne⟩ := List.mem_filter.1 hd
  exact (hcs d hmem).resolve_right (bne_iff_ne.1 hne)

/-- Without its separators a numeral is one still. -/
lemma IsNumeral.filter (h : IsNumeral cs) : IsDecimal (cs.filter (· != 0x5F)) := by
  cases h with
  | whole hcs => exact .whole hcs.filter
  | point hcs hds =>
    rw [List.filter_append]
    exact .point hcs.filter hds.filter

lemma exists_cons_of_head {bs : List UInt8} {p : Nat → Prop}
    (h : ∃ d ∈ (bs.map UInt8.toNat).head?, p d) : ∃ d rest, bs = d :: rest ∧ p d.toNat := by
  obtain ⟨d, hd, hp⟩ := h
  cases bs with
  | nil => cases hd
  | cons b bs =>
    cases hd
    exact ⟨b, bs, rfl, hp⟩

/-! ### What the scanner sees of bytes -/

namespace Scan

open ScriptGraph.Symbol (decode)

lemma isDigit_codePoint {v : Nat} {b : UInt8} :
    isDigit (codePoint v [b]) = true ↔ IsDigit b.toNat := by
  simp [isDigit, Symbol.single?, IsDigit]

lemma isDigit_of_single?_eq_none {s : Symbol} (h : s.single? = none) : isDigit s = false := by
  rw [isDigit, h]
  rfl

/-- A text goes on with a digit exactly if its next byte is one. -/
lemma any_isDigit_decode (bs : List UInt8) :
    (decode bs).head?.any isDigit = true ↔ ∃ d ∈ (bs.map UInt8.toNat).head?, IsDigit d := by
  cases bs with
  | nil => simp
  | cons b bs =>
    obtain ⟨hascii, hother⟩ := Symbol.decode_cons b bs
    by_cases hb : b.toNat < 0x80
    · rw [hascii hb, List.head?_cons, Option.any_some, isDigit_codePoint]
      simp
    · obtain ⟨s, ss, hdecode, hs⟩ := hother (Nat.not_lt.1 hb)
      rw [hdecode, List.head?_cons, Option.any_some, isDigit_of_single?_eq_none hs]
      simp only [Bool.false_eq_true, List.map_cons, List.head?_cons, Option.mem_def,
        Option.some.injEq, exists_eq_left', false_iff, IsDigit]
      omega

/-- How the scanner goes on in a numeral, by the next byte. -/
lemma numeralLength_decode_cons (seenPoint : Bool) (b : UInt8) (bs : List UInt8) :
    ((IsDigit b.toNat ∨ b.toNat = 0x5F) →
        numeralLength seenPoint (decode (b :: bs)) = numeralLength seenPoint (decode bs) + 1) ∧
      (¬(IsDigit b.toNat ∨ b.toNat = 0x5F) →
        (b.toNat = 0x2E ∧ seenPoint = false ∧ (∃ d ∈ (bs.map UInt8.toNat).head?, IsDigit d) →
          numeralLength seenPoint (decode (b :: bs)) = numeralLength true (decode bs) + 1) ∧
        (¬(b.toNat = 0x2E ∧ seenPoint = false ∧ ∃ d ∈ (bs.map UInt8.toNat).head?, IsDigit d) →
          numeralLength seenPoint (decode (b :: bs)) = 0)) := by
  have htoNat {d : UInt8} : b = d ↔ b.toNat = d.toNat := UInt8.toNat_inj.symm
  obtain ⟨hascii, hother⟩ := Symbol.decode_cons b bs
  rw [← any_isDigit_decode]
  by_cases hb : b.toNat < 0x80
  · have hcontinue : (isDigit (codePoint b.toNat [b]) ||
        (codePoint b.toNat [b]).single? = some 0x5F) = true ↔ IsDigit b.toNat ∨ b.toNat = 0x5F := by
      rw [Bool.or_eq_true, isDigit_codePoint, decide_eq_true_iff, Symbol.single?, Option.some_inj,
        htoNat]
      rfl
    have hpoint : ((codePoint b.toNat [b]).single? = some 0x2E && !seenPoint &&
        (decode bs).head?.any isDigit) = true ↔
        b.toNat = 0x2E ∧ seenPoint = false ∧ (decode bs).head?.any isDigit = true := by
      rw [Bool.and_eq_true, Bool.and_eq_true, decide_eq_true_iff, Symbol.single?, Option.some_inj,
        htoNat, Bool.not_eq_true', and_assoc]
      rfl
    rw [hascii hb, numeralLength]
    refine ⟨fun h => if_pos (hcontinue.2 h), fun h => ?_⟩
    rw [if_neg (mt hcontinue.1 h)]
    exact ⟨fun h => if_pos (hpoint.2 h), fun h => if_neg (mt hpoint.1 h)⟩
  · obtain ⟨s, ss, hdecode, hs⟩ := hother (Nat.not_lt.1 hb)
    rw [hdecode, numeralLength, hs, isDigit_of_single?_eq_none hs]
    refine ⟨fun h => ?_, fun h => ⟨fun h => ?_, fun h => ?_⟩⟩
    · rcases h with h | h
      · exact absurd h.2 (by omega)
      · omega
    · omega
    · rfl

/-- The first part of a text is its first byte and a first part of what comes after it. -/
lemma length_le_of_prefix_cons {b : UInt8} {p bs : List UInt8} {n : Nat} (hp : p <+: b :: bs)
    (h : ∀ q, p = b :: q → q <+: bs → q.length ≤ n) : p.length ≤ n + 1 := by
  cases p with
  | nil => exact Nat.zero_le _
  | cons b' q =>
    obtain ⟨rfl, hq⟩ := List.cons_prefix_cons.1 hp
    exact Nat.succ_le_succ (h q rfl hq)

/-- The scanner takes the longest part of a text with which a numeral goes on, byte by byte. -/
lemma numeralLength_longest (seenPoint : Bool) (bs : List UInt8) :
    let n := numeralLength seenPoint (decode bs)
    n ≤ bs.length ∧ spell ((decode bs).take n) = bs.take n ∧
      Continues seenPoint ((bs.take n).map UInt8.toNat) ∧
      ∀ p, p <+: bs → Continues seenPoint (p.map UInt8.toNat) → p.length ≤ n := by
  induction bs generalizing seenPoint with
  | nil =>
    refine ⟨Nat.zero_le _, rfl, .nil _, ?_⟩
    intro p hp _
    exact hp.length_le
  | cons b bs ih =>
    obtain ⟨hdigit, hother⟩ := numeralLength_decode_cons seenPoint b bs
    obtain ⟨hascii, -⟩ := Symbol.decode_cons b bs
    intro n
    by_cases hb : IsDigit b.toNat ∨ b.toNat = 0x5F
    · have hlt : b.toNat < 0x80 := by
        rcases hb with hb | hb
        · exact Nat.lt_of_le_of_lt hb.2 (by decide)
        · omega
      obtain ⟨hle, hspell, hcontinues, hlongest⟩ := ih seenPoint
      have hn : n = numeralLength seenPoint (decode bs) + 1 := hdigit hb
      rw [hn, hascii hlt]
      refine ⟨Nat.succ_le_succ hle, congrArg (b :: ·) hspell, .digit hb hcontinues, ?_⟩
      intro p hp h
      refine length_le_of_prefix_cons hp ?_
      rintro q rfl hq
      exact hlongest q hq ((continues_cons_digit hb).1 h)
    · obtain ⟨hpoint, hstop⟩ := hother hb
      by_cases hfollows :
          b.toNat = 0x2E ∧ seenPoint = false ∧ ∃ d ∈ (bs.map UInt8.toNat).head?, IsDigit d
      · obtain ⟨hle, hspell, hcontinues, hlongest⟩ := ih true
        have hn : n = numeralLength true (decode bs) + 1 := hpoint hfollows
        rw [hn, hascii (by omega)]
        refine ⟨Nat.succ_le_succ hle, congrArg (b :: ·) hspell, ?_, ?_⟩
        · obtain ⟨hdot, hseen, hdigit⟩ := hfollows
          obtain ⟨d, bs, rfl, hd⟩ := exists_cons_of_head hdigit
          obtain ⟨hnext, -⟩ := numeralLength_decode_cons true d bs
          rw [hnext (.inl hd), List.take_succ_cons] at hcontinues ⊢
          rw [List.take_succ_cons, List.map_cons, List.map_cons, hdot, hseen]
          exact .point hd hcontinues
        · intro p hp h
          refine length_le_of_prefix_cons hp ?_
          rintro q rfl hq
          obtain ⟨-, -, -, h⟩ := of_continues_cons hb h
          exact hlongest q hq h
      · have hn : n = 0 := hstop hfollows
        rw [hn]
        refine ⟨Nat.zero_le _, rfl, .nil _, ?_⟩
        intro p hp h
        cases p with
        | nil => exact Nat.le_refl 0
        | cons b' p =>
          obtain ⟨rfl, hp'⟩ := List.cons_prefix_cons.1 hp
          obtain ⟨hdot, hseen, ⟨d, hd, hdigit⟩, -⟩ := of_continues_cons hb h
          refine absurd ⟨hdot, hseen, d, ?_, hdigit⟩ hfollows
          obtain ⟨q, rfl⟩ := hp'
          rw [List.map_append, List.head?_append, hd]
          rfl

/-- At a digit the scanner finds a number, which is the longest numeral that starts there. -/
lemma token_numeral (lexicon : Lexicon) {b : UInt8} (hb : IsDigit b.toNat) (bs : List UInt8) :
    ∃ n, token lexicon (decode (b :: bs)) = done n .number ∧
      spell ((decode (b :: bs)).take n) = (b :: bs).take n ∧ n ≤ (b :: bs).length ∧
      IsNumeral (((b :: bs).take n).map UInt8.toNat) ∧
      ∀ p, p <+: b :: bs → IsNumeral (p.map UInt8.toNat) → p.length ≤ n := by
  have hclass : ∀ v < 0x3A, 0x30 ≤ v → classOf v = .number := by decide
  have hnumber := hclass _ (Nat.lt_succ_of_le hb.2) hb.1
  have hquote : b.toNat ≠ 0x27 := by
    have := hb.1
    omega
  obtain ⟨hdecode, -⟩ := Symbol.decode_cons b bs
  have hdecode := hdecode (Nat.lt_of_le_of_lt hb.2 (by decide))
  obtain ⟨hle, hspell, hcontinues, hlongest⟩ := numeralLength_longest false bs
  refine ⟨numeralLength false (decode bs) + 1, ?_, ?_, Nat.succ_le_succ hle, ?_, ?_⟩
  · rw [hdecode, token, tail.eq_def, hnumber]
    simp only [if_neg hquote, shift, done]
    rw [Nat.add_comm]
  · rw [hdecode]
    exact congrArg (b :: ·) hspell
  · exact isNumeral_cons.2 ⟨hb, hcontinues⟩
  · intro p hp h
    refine length_le_of_prefix_cons hp ?_
    rintro q rfl hq
    exact hlongest q hq (isNumeral_cons.1 h).2

end Scan

/-! ### Lexemes -/

/-- What holds of the numeral with which a text starts. -/
structure Lexeme.NumeralOf (text : List UInt8) (x : Lexeme) : Prop where
  /-- The text starts with it. -/
  starts : x.bytes <+: text
  numeral : IsNumeral (x.bytes.map UInt8.toNat)
  /-- The text does not start with a longer numeral. -/
  longest (p : List UInt8) (hp : p <+: text) (h : IsNumeral (p.map UInt8.toNat)) :
    p.length ≤ x.bytes.length
  /-- Without separators it consists of digits and at most one point. -/
  decimal : IsDecimal ((x.bytes.filter (· != 0x5F)).map UInt8.toNat)
  /-- So it is read as a number. -/
  value : ∃ n,
    Number.read? ((x.bytes.filter (· != 0x5F)).map fun b => Char.ofNat b.toNat) = some n ∧
      n ≠ .nan ∧ x.value = .number n
  /-- It ends before a point that no digit follows, and before a second point. -/
  points (before after : List UInt8) (hsplit : text = before ++ 0x2E :: after)
    (h : (∀ d ∈ after.head?, ¬IsDigit d.toNat) ∨ 0x2E ∈ before) : x.bytes <+: before

lemma map_toNat_filter (bytes : List UInt8) :
    (bytes.filter (· != 0x5F)).map UInt8.toNat = (bytes.map UInt8.toNat).filter (· != 0x5F) := by
  rw [List.filter_map]
  refine congrArg _ (List.filter_congr fun b _ => ?_)
  rw [Function.comp_apply, Bool.eq_iff_iff, bne_iff_ne, bne_iff_ne]
  exact not_congr UInt8.toNat_inj.symm

/-- A numeral in front of a text ends before a point that cannot be its own. -/
lemma prefix_of_isNumeral {numeral text before after : List UInt8} (hstarts : numeral <+: text)
    (h : IsNumeral (numeral.map UInt8.toNat)) (hsplit : text = before ++ 0x2E :: after)
    (hpoint : (∀ d ∈ after.head?, ¬IsDigit d.toNat) ∨ 0x2E ∈ before) : numeral <+: before := by
  rcases List.prefix_or_prefix_of_prefix hstarts ⟨_, hsplit.symm⟩ with hshort | ⟨more, rfl⟩
  · exact hshort
  cases more with
  | nil => simp
  | cons b more =>
    exfalso
    rw [hsplit] at hstarts
    obtain ⟨rfl, hmore⟩ := List.cons_prefix_cons.1 ((List.prefix_append_right_inj before).1 hstarts)
    rw [List.map_append, List.map_cons] at h
    obtain ⟨hbefore, hafter⟩ := h.point_inj
    rcases hpoint with hpoint | hpoint
    · obtain ⟨d, more, rfl, hd⟩ := exists_cons_of_head hafter.head
      obtain ⟨after, rfl⟩ := hmore
      exact hpoint d rfl hd
    · exact hbefore (List.mem_map.2 ⟨_, hpoint, rfl⟩)

lemma Lexeme.numeralOf {text : List UInt8} {x : Lexeme} (ht : x.token = .number)
    (hstarts : x.bytes <+: text) (h : IsNumeral (x.bytes.map UInt8.toNat))
    (hlongest : ∀ p, p <+: text → IsNumeral (p.map UInt8.toNat) → p.length ≤ x.bytes.length) :
    x.NumeralOf text := by
  refine ⟨hstarts, h, hlongest, map_toNat_filter _ ▸ h.filter, ?_, ?_⟩
  · obtain ⟨⟨c, ds, hcs, hc⟩, -⟩ := ascii_of_isNumeral h
    obtain ⟨n, hread, hn⟩ := read?_isNumeral h
    have hchars : (x.bytes.filter (· != 0x5F)).map (fun b => Char.ofNat b.toNat) =
        ((x.bytes.map UInt8.toNat).filter (· != 0x5F)).map Char.ofNat := by
      rw [← map_toNat_filter, List.map_map]
      rfl
    have hhead : x.bytes.head? ≠ some 0x27 := by
      intro hhead
      have hfirst := congrArg List.head? hcs
      rw [List.head?_map, hhead] at hfirst
      cases hfirst
      exact absurd hc.1 (by decide)
    refine ⟨n, hchars ▸ hread, hn, ?_⟩
    rw [value_numeral ht hhead, numeralValue, hchars, hread]
    rfl
  · intro before after hsplit hpoint
    exact prefix_of_isNumeral hstarts h hsplit hpoint

/-! ### Answers -/

namespace Lexer

variable {l : Lexer} {t : Token} {text : List UInt8}

/-- A token that is always kept leaves the cursor behind it, whatever has been asked for. -/
lemma cursor_serve_of_kept (h : l.nextRaw.2 = .ok t)
    (ht : ∀ (lexicon : Lexicon) (b : Breaks), (b.sift lexicon t).2 = true) (r : Request) :
    (l.serve r).1.cursor = l.nextRaw.1.cursor := by
  cases r with
  | any => rfl
  | significant =>
    have hnext := next_of_kept (Prod.ext rfl h) (Prod.ext rfl (ht _ _))
    rw [serve, hnext]
    rfl

lemma sift_dot (lexicon : Lexicon) (b : Breaks) : (b.sift lexicon .dot).2 = true := rfl

/-- A point is a token of its own. -/
lemma serve_point (hrest : l.cursor.rest = Symbol.decode (0x2E :: text)) (r : Request) :
    (l.serve r).2 = .ok .dot ∧
      (l.serve r).1.current = ⟨.dot, l.cursor.position, [0x2E], l.cursor.location⟩ := by
  obtain ⟨hdecode, -⟩ := Symbol.decode_cons 0x2E text
  rw [hdecode (by decide)] at hrest
  have hscan : Scan.token l.lexicon l.cursor.rest = .done 1 .dot := by
    rw [hrest]
    rfl
  obtain ⟨hok, -, hcurrent⟩ := nextRaw_of_token hscan
  obtain ⟨hanswer, hsame⟩ := serve_of_kept hok sift_dot r
  refine ⟨hanswer, hsame.trans (hcurrent.trans ?_)⟩
  rw [hrest]
  rfl

/-- A lexer before a digit answers with the longest numeral, and with the point next if there is one
behind it. -/
lemma serve_numeral {b : UInt8} (hrest : l.cursor.rest = Symbol.decode (b :: text))
    (hb : IsDigit b.toNat) (r : Request) :
    (l.serve r).2 = .ok .number ∧ (l.serve r).1.current.start = l.cursor.position ∧
      (l.serve r).1.current.NumeralOf (b :: text) ∧
      ∀ after, b :: text = (l.serve r).1.current.bytes ++ 0x2E :: after →
        (l.serve r).1.cursor.rest = Symbol.decode (0x2E :: after) ∧
          (l.serve r).1.cursor.position = (l.serve r).1.current.stop := by
  obtain ⟨n, hscan, hspell, hle, hnumeral, hlongest⟩ := Scan.token_numeral l.lexicon hb text
  rw [← hrest] at hscan hspell
  obtain ⟨hok, hcursor, hcurrent⟩ := nextRaw_of_token hscan
  obtain ⟨hanswer, hsame⟩ := serve_of_kept hok sift_number r
  have hbytes : (l.serve r).1.current.bytes = (b :: text).take n := by
    rw [hsame, hcurrent, hspell]
  refine ⟨hanswer, by rw [hsame, hcurrent], ?_, ?_⟩
  · refine Lexeme.numeralOf (by rw [hsame, hcurrent]) ?_ (hbytes ▸ hnumeral) ?_
    · rw [hbytes]
      exact List.take_prefix n _
    · rw [hbytes, List.length_take_of_le hle]
      exact hlongest
  · intro after hafter
    have hpassed : Symbol.WellFormed (l.cursor.rest.take n) := by
      have hsound := (Scan.sound_token l.lexicon l.cursor.rest).wellFormed
      rwa [hscan] at hsound
    have hsplit : Symbol.decode (b :: text) = l.cursor.rest.take n ++ l.cursor.rest.drop n := by
      rw [List.take_append_drop, hrest]
    obtain ⟨rest', htext, hdrop, -⟩ := Symbol.decodes_of_decode_eq_append hsplit hpassed
    rw [hspell, ← hbytes] at htext
    rw [cursor_serve_of_kept hok sift_number r, hcursor]
    refine ⟨?_, ?_⟩
    · rw [List.append_cancel_left (hafter.symm.trans htext)]
      exact hdrop
    · rw [Cursor.advance, hspell, ← hbytes, Lexeme.stop, hsame, hcurrent]

end Lexer

/-- Where a digit comes next, a lexer answers with the longest numeral that starts there, and this
numeral has a number. A point that comes right after it is the token after it. -/
theorem numerals_longest (lexicon : Lexicon) (buffer : List UInt8) (offset size : Nat)
    (rs : List Lexer.Request) (r : Lexer.Request) (b : UInt8) (rest : List UInt8) :
    let l := (Lexer.ofWindow lexicon buffer offset size).afterAll rs
    let text :=
      (Cursor.window buffer offset size).drop (l.cursor.position - min offset buffer.length)
    let answer := l.serve r
    let x := answer.1.current
    text = b :: rest → IsDigit b.toNat →
      answer.2 = .ok .number ∧ x.start = l.cursor.position ∧ x.NumeralOf text ∧
        ∀ after, text = x.bytes ++ 0x2E :: after → ∀ r',
          (answer.1.serve r').2 = .ok .dot ∧ (answer.1.serve r').1.current.start = x.stop ∧
            (answer.1.serve r').1.current.bytes = [0x2E] := by
  intro l text answer x htext hb
  have hrest : l.cursor.rest = Symbol.decode (b :: rest) :=
    htext ▸ Lexer.rest_afterAll lexicon buffer offset size rs
  obtain ⟨hok, hstart, hnumeral, hpoint⟩ := Lexer.serve_numeral hrest hb r
  rw [htext]
  refine ⟨hok, hstart, hnumeral, ?_⟩
  intro after hafter r'
  obtain ⟨hbehind, hposition⟩ := hpoint after hafter
  obtain ⟨hdot, hcurrent⟩ := Lexer.serve_point hbehind r'
  refine ⟨hdot, ?_, ?_⟩
  · rw [hcurrent]
    exact hposition
  · rw [hcurrent]

/-- The numeral `1_0.5` ends before its second point, also where a window starts behind a blank. -/
theorem numerals_longest_second_point :
    let buffer := Utf8.encode " 1_0.5.7"
    let l := Lexer.ofWindow .standard buffer 1 9
    let x := (l.serve .any).1.current
    x.bytes = Utf8.encode "1_0.5" ∧ x.NumeralOf (Utf8.encode "1_0.5.7") ∧
      ((l.serve .any).1.serve .any).2 = .ok .dot := by
  intro buffer l x
  have htext : (Cursor.window buffer 1 9).drop (l.cursor.position - min 1 buffer.length) =
      Utf8.encode "1_0.5.7" := by decide +kernel
  have hbytes : x.bytes = Utf8.encode "1_0.5" := by decide +kernel
  obtain ⟨-, -, hnumeral, hpoint⟩ := numerals_longest .standard buffer 1 9 [] .any 0x31
    (Utf8.encode "_0.5.7") htext ⟨by decide, by decide⟩
  have hnumeral : x.NumeralOf
      ((Cursor.window buffer 1 9).drop (l.cursor.position - min 1 buffer.length)) := hnumeral
  have hsplit : Utf8.encode "1_0.5.7" = x.bytes ++ 0x2E :: Utf8.encode "7" := by
    rw [hbytes]
    rfl
  rw [htext] at hnumeral
  exact ⟨hbytes, hnumeral, (hpoint _ (htext.trans hsplit) .any).1⟩

end ScriptGraph
