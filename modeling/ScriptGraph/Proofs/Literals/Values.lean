import ScriptGraph.Proofs.Literals.Content

/-!
# Values of literals

The value of a lexeme is found in its bytes: the delimiters and the backslash of an escape are
looked for as single bytes. For each form of a literal this gives what the literal denotes under a
condition on how its code points are spelt.
-/

namespace ScriptGraph

open CodePoint (isContinuation isContinuation_iff)
open Utf8 (replacement)

/-! ### Delimiters -/

namespace Symbol

variable {ss : List Symbol} {d e v : Nat} {bs os qs tail : List UInt8} {inner : List Nat}

lemma exists_delimited (hss : ∀ s ∈ ss, s.IsSequence) (h : codePoints ss = e :: (inner ++ [d])) :
    ∃ os ss' qs, ss = codePoint e os :: (ss' ++ [codePoint d qs]) ∧ codePoints ss' = inner := by
  obtain ⟨os, ss, rfl, htail⟩ := exists_cons_of_codePoints hss h
  obtain ⟨-, hrest⟩ := List.forall_mem_cons.1 hss
  obtain ⟨ss', last, rfl, hinner, hlast⟩ := List.filterMap_eq_append_iff.1 htail
  obtain ⟨qs, last, rfl, hnil⟩ :=
    exists_cons_of_codePoints (List.forall_mem_append.1 hrest).2 hlast
  have hlen := length_codePoints fun s hs =>
    (List.forall_mem_append.1 hrest).2 s (List.mem_cons_of_mem _ hs)
  rw [hnil] at hlen
  obtain rfl := List.length_eq_zero_iff.1 hlen.symm
  exact ⟨os, ss', qs, rfl, hinner⟩

lemma ofNat_injective_of_ascii (hv : v < 0x80) (hd : d < 0x80)
    (h : UInt8.ofNat v = UInt8.ofNat d) : v = d := by
  have htoNat := congrArg UInt8.toNat h
  rwa [UInt8.toNat_ofNat_of_lt' (Nat.lt_trans hv (by decide)),
    UInt8.toNat_ofNat_of_lt' (Nat.lt_trans hd (by decide))] at htoNat

lemma ne_ofNat_of_isContinuation {b : UInt8} (hb : isContinuation b = true) (hd : d < 0x80) :
    b ≠ UInt8.ofNat d := by
  rintro rfl
  rw [isContinuation_iff, UInt8.toNat_ofNat_of_lt' (Nat.lt_trans hd (by decide))] at hb
  omega

/-- The first byte of an ASCII code point is an ASCII character only if it is its shortest sequence,
which has no other bytes. -/
lemma IsSequence.ascii (h : (codePoint v bs).IsSequence) (hv : v < 0x80) :
    ∃ b tail, bs = b :: tail ∧ (∀ t ∈ tail, isContinuation t = true) ∧
      (tail.length = 0 ↔ (codePoint v bs).IsShortest) ∧
      ∀ d < 0x80, b = UInt8.ofNat d ↔ d = v ∧ (codePoint v bs).IsShortest := by
  have hiff := isShortest_iff_of_ascii h hv
  rcases h.bytes with ⟨-, hbytes⟩ | ⟨b, tail, hbytes, hb, htail, hcontinue⟩
  · have hshort := hiff.2 hbytes
    refine ⟨_, [], hbytes, by simp, by simp [hshort], ?_⟩
    intro d hd
    rw [and_iff_left hshort]
    constructor
    · intro heq
      exact (ofNat_injective_of_ascii hv hd heq).symm
    · rintro rfl
      rfl
  · have hlong : ¬(codePoint v bs).IsShortest := by
      rw [hiff, hbytes]
      intro heq
      exact htail (List.cons.inj heq).2
    refine ⟨b, tail, hbytes, hcontinue, by simp [hlong, htail], ?_⟩
    intro d hd
    rw [iff_false_intro hlong, and_false, iff_false]
    rintro rfl
    rw [UInt8.toNat_ofNat_of_lt' (Nat.lt_trans hd (by decide))] at hb
    omega

/-- The last byte is that of an ASCII code point only if this is spelt by a single byte. -/
lemma getLast?_spell (hss : ∀ s ∈ ss, s.IsSequence) (htail : ∀ t ∈ tail, isContinuation t = true)
    (hd : d < 0x80) (h : (tail ++ spell ss).getLast? = some (UInt8.ofNat d)) :
    ∃ ss', ss = ss' ++ [codePoint d [UInt8.ofNat d]] := by
  rcases List.eq_nil_or_concat ss with rfl | ⟨ss', s, rfl⟩
  · rw [spell_nil, List.append_nil] at h
    exact absurd rfl (ne_ofNat_of_isContinuation (htail _ (List.mem_of_getLast? h)) hd)
  · rw [List.concat_eq_append] at hss h ⊢
    have hs := (List.forall_mem_append.1 hss).2 s (List.mem_singleton_self s)
    cases s with
    | malformed b => exact hs.elim
    | codePoint v bs =>
      refine ⟨ss', ?_⟩
      rw [spell_append, ← List.append_assoc, List.getLast?_append] at h
      rcases hs.bytes with ⟨hv, rfl⟩ | ⟨b, tail', rfl, -, hne, hcontinue⟩
      · have heq : UInt8.ofNat v = UInt8.ofNat d := Option.some.inj h
        rw [ofNat_injective_of_ascii hv hd heq]
      · obtain ⟨init, last, rfl⟩ := (List.eq_nil_or_concat tail').resolve_left hne
        rw [List.concat_eq_append] at hcontinue h
        have hlast : isContinuation last = true :=
          hcontinue last (List.mem_append_right _ (List.mem_singleton_self last))
        have heq : last = UInt8.ofNat d := by simpa [Symbol.bytes, List.getLast?_cons] using h
        exact absurd heq (ne_ofNat_of_isContinuation hlast hd)

end Symbol

namespace Lexeme

open ScriptGraph.Symbol (backslash_not_mem_replicate codePoint codePoints spell chars)

variable {ss : List Symbol} {d e n : Nat} {os qs tail bytes : List UInt8}

/-- Nothing is stripped at the end unless the closing delimiter is there as a single byte. -/
lemma strip_eq_drop (hdrop : bytes.drop n = tail ++ spell ss)
    (htail : ∀ t ∈ tail, isContinuation t = true) (hss : ∀ s ∈ ss, s.IsSequence) (hd : d < 0x80)
    (hnot : ∀ ss', ss ≠ ss' ++ [codePoint d [UInt8.ofNat d]]) :
    strip n (UInt8.ofNat d) bytes = tail ++ spell ss := by
  have hlast : (tail ++ spell ss).getLast? ≠ some (UInt8.ofNat d) := by
    intro hlast
    obtain ⟨ss', hss'⟩ := Symbol.getLast?_spell hss htail hd hlast
    exact hnot ss' hss'
  simp only [strip, hdrop, if_neg hlast]

/-- Stripped of its delimiters, a text starts with its content. A closing delimiter that is not the
shortest one stays. -/
lemma strip_closed (hdrop : bytes.drop n = tail ++ spell (ss ++ [codePoint d qs]))
    (htail : ∀ t ∈ tail, isContinuation t = true) (hss : ∀ s ∈ ss, s.IsSequence)
    (hq : (codePoint d qs).IsSequence) (hd : d < 0x80) :
    ∃ rest, strip n (UInt8.ofNat d) bytes = tail ++ (spell ss ++ rest) ∧
      ((codePoint d qs).IsShortest ∧ rest = [] ∨ ¬(codePoint d qs).IsShortest ∧ rest = qs) := by
  have hiff := Symbol.isShortest_iff_of_ascii hq hd
  by_cases hshort : (codePoint d qs).IsShortest
  · have hlast : bytes.drop n = (tail ++ spell ss) ++ [UInt8.ofNat d] := by
      simp [hdrop, hiff.1 hshort, Symbol.bytes]
    exact ⟨[], by simp [strip, hlast], .inl ⟨hshort, rfl⟩⟩
  · have hall : ∀ s ∈ ss ++ [codePoint d qs], s.IsSequence :=
      List.forall_mem_append.2 ⟨hss, by simpa using hq⟩
    have hnot (ss' : List Symbol) :
        ss ++ [codePoint d qs] ≠ ss' ++ [codePoint d [UInt8.ofNat d]] := by
      intro heq
      have hlast := congrArg List.getLast? heq
      simp only [List.getLast?_append, List.getLast?_singleton, Option.some_or, Option.some.injEq,
        Symbol.codePoint.injEq, true_and] at hlast
      exact hshort (hiff.2 hlast)
    refine ⟨qs, ?_, .inr ⟨hshort, rfl⟩⟩
    rw [strip_eq_drop hdrop htail hall hd hnot]
    simp [Symbol.bytes]

/-- Stripped of its delimiters, a text reads as its content, and with it as a replacement character
for each byte of them that stays. -/
lemma decodeFrom_strip_closed (hdrop : bytes.drop n = tail ++ spell (ss ++ [codePoint d qs]))
    (htail : ∀ t ∈ tail, isContinuation t = true) (hss : ∀ s ∈ ss, s.IsSequence)
    (hq : (codePoint d qs).IsSequence) (hd : d < 0x80) :
    ∃ m, Utf8.decodeFrom 0 (strip n (UInt8.ofNat d) bytes) =
        List.replicate tail.length replacement ++ ss.flatMap chars ++
          List.replicate m replacement ∧
      (m = 0 ↔ (codePoint d qs).IsShortest) := by
  obtain ⟨rest, hstrip, hrest⟩ := strip_closed hdrop htail hss hq hd
  rw [hstrip, Utf8.decodeFrom_continuations htail, Symbol.decodeFrom_spell_append hss]
  rcases hrest with ⟨hshort, rfl⟩ | ⟨hshort, rfl⟩
  · exact ⟨0, by simp [Utf8.decodeFrom], by simp [hshort]⟩
  · obtain ⟨m, hm⟩ := Symbol.chars_of_not_isShortest hq hshort
    have hclose := Symbol.decodeFrom_spell (List.forall_mem_singleton.2 hq)
    have hspell : spell [codePoint d rest] = rest := by simp [Symbol.bytes]
    rw [hspell, List.flatMap_singleton, hm] at hclose
    exact ⟨m + 2, by rw [hclose, List.append_assoc], by simp [hshort]⟩

/-- Where the closing delimiter is not among the code points, nothing is stripped at the end. -/
lemma decodeFrom_strip_open (hdrop : bytes.drop n = tail ++ spell ss)
    (htail : ∀ t ∈ tail, isContinuation t = true) (hss : ∀ s ∈ ss, s.IsSequence)
    (hd : d < 0x80) (hopen : d ∉ codePoints ss) :
    Utf8.decodeFrom 0 (strip n (UInt8.ofNat d) bytes) =
      List.replicate tail.length replacement ++ ss.flatMap chars := by
  have hnot (ss' : List Symbol) : ss ≠ ss' ++ [codePoint d [UInt8.ofNat d]] := by
    rintro rfl
    exact hopen (by simp)
  rw [strip_eq_drop hdrop htail hss hd hnot, Utf8.decodeFrom_continuations htail,
    Symbol.decodeFrom_spell hss]

/-- The first byte of a lexeme is an ASCII character only if the lexeme starts with the shortest
sequence of that character. Of any other sequence for it, continuation bytes stay. -/
lemma opening {x : Lexeme} {v : Nat} (hbytes : x.bytes = spell (codePoint v os :: ss))
    (ho : (codePoint v os).IsSequence) (hv : v < 0x80) :
    ∃ tail, x.bytes.drop 1 = tail ++ spell ss ∧ (∀ t ∈ tail, isContinuation t = true) ∧
      (tail.length = 0 ↔ (codePoint v os).IsShortest) ∧
      ∀ d < 0x80, x.bytes.head? = some (UInt8.ofNat d) ↔ d = v ∧ (codePoint v os).IsShortest := by
  obtain ⟨b, tail, rfl, htail, hopen, hbyte⟩ := ho.ascii hv
  rw [hbytes]
  refine ⟨tail, rfl, htail, hopen, ?_⟩
  intro d hd
  rw [← hbyte d hd]
  exact Option.some_inj

/-- How a lexeme reads between its delimiters: `k` and `m` replacement characters stand around its
content for the bytes of delimiters that stay. -/
structure Between (bytes : List UInt8) (ss content : List Symbol) (e d k m : Nat) : Prop where
  sequences : ∀ s ∈ content, s.IsSequence
  length : content.length < ss.length
  reads : Utf8.decodeFrom 0 (strip 1 (UInt8.ofNat d) bytes) =
    List.replicate k replacement ++ content.flatMap chars ++ List.replicate m replacement
  shortest : (k = 0 ∧ m = 0 ∧ ∀ s ∈ content, s.IsShortest) ↔ ∀ s ∈ ss, s.IsShortest
  head : ∀ v < 0x80, bytes.head? = some (UInt8.ofNat v) ↔ v = e ∧ k = 0

lemma between_closed {x : Lexeme} {inner : List Nat} (hbytes : x.bytes = spell ss)
    (hss : ∀ s ∈ ss, s.IsSequence) (hcs : codePoints ss = e :: (inner ++ [d])) (he : e < 0x80)
    (hd : d < 0x80) :
    ∃ content k m, codePoints content = inner ∧ Between x.bytes ss content e d k m := by
  obtain ⟨os, content, qs, rfl, rfl⟩ := Symbol.exists_delimited hss hcs
  obtain ⟨ho, hrest⟩ := List.forall_mem_cons.1 hss
  obtain ⟨hcontent, hq⟩ := List.forall_mem_append.1 hrest
  obtain ⟨tail, hdrop, htail, hopen, hhead⟩ := opening hbytes ho he
  obtain ⟨m, hreads, hclose⟩ :=
    decodeFrom_strip_closed hdrop htail hcontent (List.forall_mem_singleton.1 hq) hd
  refine ⟨content, tail.length, m, rfl, hcontent, ?_, hreads, ?_, ?_⟩
  · rw [List.length_cons, List.length_append]
    omega
  · rw [hopen, hclose, List.forall_mem_cons, List.forall_mem_append, List.forall_mem_singleton]
    exact and_congr_right' and_comm
  · rwa [hopen]

lemma between_open {x : Lexeme} {inner : List Nat} (hbytes : x.bytes = spell ss)
    (hss : ∀ s ∈ ss, s.IsSequence) (hcs : codePoints ss = e :: inner) (he : e < 0x80)
    (hd : d < 0x80) (h : d ∉ inner) :
    ∃ content k m, codePoints content = inner ∧ Between x.bytes ss content e d k m := by
  obtain ⟨os, content, rfl, rfl⟩ := Symbol.exists_cons_of_codePoints hss hcs
  obtain ⟨ho, hcontent⟩ := List.forall_mem_cons.1 hss
  obtain ⟨tail, hdrop, htail, hopen, hhead⟩ := opening hbytes ho he
  refine ⟨content, tail.length, 0, rfl, hcontent, Nat.lt_succ_self _, ?_, ?_, ?_⟩
  · rw [List.replicate_zero, List.append_nil]
    exact decodeFrom_strip_open hdrop htail hcontent hd h
  · rw [hopen, List.forall_mem_cons]
    simp only [true_and]
  · rwa [hopen]

/-! ### Strings and identifiers -/

section

variable {x : Lexeme} {inner content : List Nat}

lemma textOf_inj {cs : List Char} :
    Literal.string (String.ofList cs) = .string (textOf content) ↔ cs = content.map Char.ofNat := by
  rw [Literal.string.injEq, textOf, String.ofList_inj]

lemma value_string (ht : x.token = .string) (h : x.bytes.head? ≠ some 0x40) :
    x.value = .string (stringValue x.bytes) := by
  unfold value
  rw [ht]
  split <;> simp_all

lemma value_rawString (ht : x.token = .string) (h : x.bytes.head? = some 0x40) :
    x.value = .string (Utf8.decode (strip 2 0x22 x.bytes)) := by
  simp [value, ht, h]

lemma value_quotedIdent (ht : x.token = .ident) (h : x.bytes.head? = some 0x60) :
    x.value = .string (Utf8.decode (strip 1 0x60 x.bytes)) := by
  simp [value, ht, h]

lemma value_ident (ht : x.token = .ident) (h : x.bytes.head? ≠ some 0x60) :
    x.value = .string (Utf8.decode x.bytes) := by
  unfold value
  rw [ht]
  split <;> simp_all [text]

variable (hbytes : x.bytes = spell ss) (hss : ∀ s ∈ ss, s.IsSequence)
  (hvalid : ∀ c ∈ codePoints ss, c.isValidChar)
include hbytes hss hvalid

lemma value_string_iff (ht : x.token = .string)
    (hcs : codePoints ss = 0x22 :: (inner ++ [0x22])) (h : Escaped inner content) :
    x.value = .string (textOf content) ↔ ∀ s ∈ ss, s.IsShortest := by
  obtain ⟨ss', k, m, rfl, hbetween⟩ := between_closed hbytes hss hcs (by decide) (by decide)
  have hsign : x.bytes.head? ≠ some 0x40 := by
    intro heq
    have hv := ((hbetween.head 0x40 (by decide)).1 heq).1
    omega
  have hinner : ∀ c ∈ codePoints ss', c.isValidChar := fun c hc => hvalid c (by simp [hcs, hc])
  rw [value_string ht hsign, stringValue, textOf_inj, ← hbetween.shortest,
    ← replaceEscapes_iff h hbetween.sequences hinner, ← hbetween.reads]
  rfl

/-- Behind the sign that opens a raw string, the scanner takes a quote only as a single byte. -/
lemma value_rawString_iff (ht : x.token = .string)
    (hcs : codePoints ss = 0x40 :: 0x22 :: (inner ++ [0x22])) (h : 0x22 ∉ inner)
    (hquote : ∀ o q rest, ss = o :: q :: rest → q = codePoint 0x22 [0x22]) :
    x.value = .string (textOf inner) ↔ ∀ s ∈ ss, s.IsShortest := by
  obtain ⟨os, ss₁, rfl, hcs₁⟩ := Symbol.exists_cons_of_codePoints hss hcs
  obtain ⟨ho, hrest⟩ := List.forall_mem_cons.1 hss
  obtain ⟨qs', ss', qs, rfl, rfl⟩ := Symbol.exists_delimited hrest hcs₁
  obtain ⟨-, rfl⟩ := Symbol.codePoint.inj (hquote _ _ _ rfl)
  obtain ⟨hsecond, hrest'⟩ := List.forall_mem_cons.1 hrest
  obtain ⟨hss', hq⟩ := List.forall_mem_append.1 hrest'
  obtain ⟨tail, hdrop, htail, hopen, hhead⟩ := opening hbytes ho (by decide)
  have hshort' : (codePoint 0x22 [0x22]).IsShortest := rfl
  have hinner : ∀ c ∈ codePoints ss', c.isValidChar := fun c hc => hvalid c (by simp [hc])
  by_cases hshort : (codePoint 0x40 os).IsShortest
  · have hsign : x.bytes.head? = some 0x40 := (hhead 0x40 (by decide)).2 ⟨rfl, hshort⟩
    obtain rfl : tail = [] := List.length_eq_zero_iff.1 (hopen.2 hshort)
    have hdrop' : x.bytes.drop 2 = [] ++ spell (ss' ++ [codePoint 0x22 qs]) := by
      rw [← List.drop_drop (i := 1), hdrop]
      rfl
    obtain ⟨m, hcontent, hclose⟩ :=
      decodeFrom_strip_closed hdrop' htail hss' (List.forall_mem_singleton.1 hq) (by decide)
    rw [value_rawString ht hsign, Utf8.decode, textOf_inj]
    show Utf8.decodeFrom 0 (strip 2 (UInt8.ofNat 0x22) x.bytes) = _ ↔ _
    rw [hcontent, Symbol.verbatim_iff hss' hinner, hclose, List.forall_mem_cons,
      List.forall_mem_cons, List.forall_mem_append, List.forall_mem_singleton]
    rw [eq_true hshort, true_and, eq_true hshort', true_and]
    simp only [List.length_nil, true_and]
    exact and_comm
  · -- The value is read as that of another string and holds the quote.
    have hsign : x.bytes.head? ≠ some 0x40 := by
      intro heq
      exact hshort ((hhead 0x40 (by decide)).1 heq).2
    have hall : ∀ s ∈ codePoint 0x22 [0x22] :: ss', s.IsSequence :=
      List.forall_mem_cons.2 ⟨hsecond, hss'⟩
    obtain ⟨m, hcontent, -⟩ :=
      decodeFrom_strip_closed hdrop htail hall (List.forall_mem_singleton.1 hq) (by decide)
    rw [value_string ht hsign, stringValue, textOf_inj]
    show replaceEscapes (Utf8.decodeFrom 0 (strip 1 (UInt8.ofNat 0x22) x.bytes)) = _ ↔ _
    have hchars : (codePoint 0x22 [0x22]).chars = ['"'] := rfl
    have hplain : '\\' ∉ ['"'] := by decide
    refine iff_of_false ?_ fun hall => hshort (hall _ List.mem_cons_self)
    rw [hcontent, List.flatMap_cons, hchars, List.append_assoc, List.append_assoc,
      replaceEscapes_append (backslash_not_mem_replicate _), replaceEscapes_append hplain]
    intro heq
    have hmem : '"' ∈ (codePoints ss').map Char.ofNat := by
      rw [← heq]
      simp
    obtain ⟨c, hc, hquoted⟩ := List.mem_map.1 hmem
    have htoNat := congrArg Char.toNat hquoted
    rw [Symbol.toNat_ofNat_of_isValidChar (hinner c hc)] at htoNat
    obtain rfl : c = 0x22 := htoNat
    exact h hc

/-- Where the opening delimiter of a quoted identifier is not the shortest one, all its delimiters
stay. -/
lemma value_ne_of_head (ht : x.token = .ident) (h : x.bytes.head? ≠ some 0x60)
    (hlen : inner.length < ss.length) : x.value ≠ .string (textOf inner) := by
  rw [value_ident ht h, Utf8.decode, Ne, textOf_inj, hbytes, Symbol.decodeFrom_spell hss]
  intro heq
  obtain ⟨hle, -⟩ := Symbol.length_flatMap_chars hss hvalid
  rw [heq, List.length_map] at hle
  omega

lemma value_quotedIdent_iff {ss' : List Symbol} {k m : Nat} (ht : x.token = .ident)
    (hbetween : Between x.bytes ss ss' 0x60 0x60 k m)
    (hinner : ∀ c ∈ codePoints ss', c.isValidChar) :
    x.value = .string (textOf (codePoints ss')) ↔ ∀ s ∈ ss, s.IsShortest := by
  by_cases hmark : x.bytes.head? = some 0x60
  · rw [value_quotedIdent ht hmark, Utf8.decode, textOf_inj, ← hbetween.shortest,
      ← Symbol.verbatim_iff hbetween.sequences hinner, ← hbetween.reads]
    rfl
  · have hlen := hbetween.length
    rw [← Symbol.length_codePoints hbetween.sequences] at hlen
    refine iff_of_false (value_ne_of_head hbytes hss hvalid ht hmark hlen) ?_
    intro hall
    have hopen := (hbetween.shortest.2 hall).1
    exact hmark ((hbetween.head 0x60 (by decide)).2 ⟨rfl, hopen⟩)

lemma value_openIdent_iff (ht : x.token = .ident) (hcs : codePoints ss = 0x60 :: inner)
    (h : 0x60 ∉ inner) : x.value = .string (textOf inner) ↔ ∀ s ∈ ss, s.IsShortest := by
  obtain ⟨ss', k, m, rfl, hbetween⟩ := between_open hbytes hss hcs (by decide) (by decide) h
  refine value_quotedIdent_iff hbytes hss hvalid ht hbetween ?_
  intro c hc
  exact hvalid c (by simp [hcs, hc])

lemma value_closedIdent_iff (ht : x.token = .ident)
    (hcs : codePoints ss = 0x60 :: (inner ++ [0x60])) :
    x.value = .string (textOf inner) ↔ ∀ s ∈ ss, s.IsShortest := by
  obtain ⟨ss', k, m, rfl, hbetween⟩ := between_closed hbytes hss hcs (by decide) (by decide)
  refine value_quotedIdent_iff hbytes hss hvalid ht hbetween ?_
  intro c hc
  exact hvalid c (by simp [hcs, hc])

end

/-! ### Numerals -/

section

variable {x : Lexeme} {cs : List Nat}

lemma value_numeral (ht : x.token = .number) (h : x.bytes.head? ≠ some 0x27) :
    x.value = .number (numeralValue x.bytes) := by
  unfold value
  rw [ht]
  split <;> simp_all

/-- Only bytes of ASCII have a number. -/
lemma ascii_of_numeralValue (h : numeralValue bytes ≠ .nan) : ∀ b ∈ bytes, b.toNat < 0x80 := by
  intro b hb
  by_cases hseparator : b = 0x5F
  · subst hseparator
    decide
  · cases hread : Number.read? ((bytes.filter (· != 0x5F)).map fun b => Char.ofNat b.toNat) with
    | none =>
      rw [numeralValue, hread] at h
      exact absurd rfl h
    | some n =>
      have hmem : Char.ofNat b.toNat ∈
          (bytes.filter (· != 0x5F)).map fun b => Char.ofNat b.toNat :=
        List.mem_map.2 ⟨b, List.mem_filter.2 ⟨hb, by simpa using hseparator⟩, rfl⟩
      have hvalid : b.toNat.isValidChar := .inl (Nat.lt_trans b.toNat_lt (by decide))
      have hascii := Number.ascii_of_read? hread _ hmem
      rwa [Symbol.toNat_ofNat_of_isValidChar hvalid] at hascii

lemma isShortest_of_ascii (hss : ∀ s ∈ ss, s.IsSequence) (h : ∀ b ∈ spell ss, b.toNat < 0x80) :
    ∀ s ∈ ss, s.IsShortest := by
  intro s hs
  have hsequence := hss s hs
  cases s with
  | malformed b => exact hsequence.elim
  | codePoint v bs =>
    rcases hsequence.bytes with ⟨hv, hbytes⟩ | ⟨b, tail, rfl, hb, -⟩
    · exact (Symbol.isShortest_iff_of_ascii hsequence hv).2 hbytes
    · have := h b (List.mem_flatMap.2 ⟨_, hs, List.mem_cons_self⟩)
      omega

/-- Without its separators a run of digits is one of digits alone. -/
lemma digits_of_isDigits (h : IsDigits cs) :
    ∃ c whole, (cs.filter (· != 0x5F)).map Char.ofNat = c :: whole ∧
      (c :: whole).all Char.isDigit = true := by
  have hdigit {c : Nat} (hc : IsDigit c) : (Char.ofNat c).isDigit = true := by
    have hvalid : c.isValidChar := .inl (Nat.lt_of_le_of_lt hc.2 (by decide))
    rw [Number.isDigit_iff, Symbol.toNat_ofNat_of_isValidChar hvalid]
    exact hc
  obtain @⟨c, cs, hc, hcs⟩ := h
  have hfirst : (c != 0x5F) = true := by
    have := hc.2
    rw [bne_iff_ne]
    omega
  refine ⟨Char.ofNat c, (cs.filter (· != 0x5F)).map Char.ofNat, ?_, ?_⟩
  · rw [List.filter_cons, if_pos hfirst, List.map_cons]
  · rw [List.all_cons, hdigit hc, Bool.true_and, List.all_eq_true]
    intro d hd
    obtain ⟨d, hmem, rfl⟩ := List.mem_map.1 hd
    obtain ⟨hmem, hne⟩ := List.mem_filter.1 hmem
    exact hdigit ((hcs d hmem).resolve_right (bne_iff_ne.1 hne))

/-- A numeral can be read, once its separators are gone. -/
lemma read?_isNumeral (h : IsNumeral cs) :
    ∃ n, Number.read? ((cs.filter (· != 0x5F)).map Char.ofNat) = some n ∧ n ≠ .nan := by
  cases h with
  | whole hcs =>
    obtain ⟨c, whole, hwhole, hdigits⟩ := digits_of_isDigits hcs
    have hread := Number.read?_digits hdigits (.inl rfl)
    rwa [List.append_nil, ← hwhole] at hread
  | point hcs hds =>
    obtain ⟨c, whole, hwhole, hdigits⟩ := digits_of_isDigits hcs
    obtain ⟨d, fraction, hfraction, hdigits'⟩ := digits_of_isDigits hds
    have hread := Number.read?_digits hdigits (.inr ⟨_, rfl, hdigits'⟩)
    rw [← hwhole, ← hfraction] at hread
    rw [List.filter_append, List.map_append]
    exact hread

lemma ascii_of_isNumeral (h : IsNumeral cs) : (∃ c ds, cs = c :: ds ∧ IsDigit c) ∧
    ∀ c ∈ cs, c < 0x80 := by
  have hdigits {cs : List Nat} (h : IsDigits cs) : (∃ c ds, cs = c :: ds ∧ IsDigit c) ∧
      ∀ c ∈ cs, c < 0x80 := by
    obtain ⟨hc, hcs⟩ := h
    refine ⟨⟨_, _, rfl, hc⟩, List.forall_mem_cons.2 ⟨Nat.lt_of_le_of_lt hc.2 (by decide), ?_⟩⟩
    intro d hd
    rcases hcs d hd with hd | rfl
    · exact Nat.lt_of_le_of_lt hd.2 (by decide)
    · decide
  cases h with
  | whole hcs => exact hdigits hcs
  | point hcs hds =>
    obtain ⟨⟨c, cs, rfl, hc⟩, hascii⟩ := hdigits hcs
    refine ⟨⟨c, _, rfl, hc⟩, List.forall_mem_append.2 ⟨hascii, ?_⟩⟩
    exact List.forall_mem_cons.2 ⟨by decide, (hdigits hds).2⟩

/-- The shortest sequences of ASCII code points are their own bytes. -/
lemma spell_of_isShortest (hss : ∀ s ∈ ss, s.IsSequence) (hshort : ∀ s ∈ ss, s.IsShortest)
    (hascii : ∀ c ∈ codePoints ss, c < 0x80) : spell ss = (codePoints ss).map UInt8.ofNat := by
  induction ss with
  | nil => rfl
  | cons s ss ih =>
    obtain ⟨hs, hrest⟩ := List.forall_mem_cons.1 hss
    obtain ⟨hone, hothers⟩ := List.forall_mem_cons.1 hshort
    cases s with
    | malformed b => exact hs.elim
    | codePoint v bs =>
      obtain ⟨hv, hascii⟩ := List.forall_mem_cons.1 hascii
      rw [Symbol.spell_cons, Symbol.bytes, (Symbol.isShortest_iff_of_ascii hs hv).1 hone,
        ih hrest hothers hascii]
      rfl

/-- The bytes of ASCII code points without separators are those of the code points without them. -/
lemma filter_map_ofNat (hascii : ∀ c ∈ cs, c < 0x80) :
    ((cs.map UInt8.ofNat).filter (· != 0x5F)).map (fun b => Char.ofNat b.toNat) =
      (cs.filter (· != 0x5F)).map Char.ofNat := by
  have htoNat {c : Nat} (hc : c < 0x80) : (UInt8.ofNat c).toNat = c :=
    UInt8.toNat_ofNat_of_lt' (Nat.lt_trans hc (by decide))
  have hfilter : (cs.map UInt8.ofNat).filter (· != 0x5F) =
      (cs.filter (· != 0x5F)).map UInt8.ofNat := by
    rw [List.filter_map]
    refine congrArg _ (List.filter_congr fun c hc => ?_)
    rw [Function.comp_apply, Bool.eq_iff_iff, bne_iff_ne, bne_iff_ne]
    have hiff : UInt8.ofNat c = UInt8.ofNat 0x5F ↔ c = 0x5F :=
      ⟨Symbol.ofNat_injective_of_ascii (hascii c hc) (by decide), congrArg _⟩
    exact not_congr hiff
  rw [hfilter, List.map_map]
  refine List.map_congr_left fun c hc => ?_
  rw [Function.comp_apply, htoNat (hascii c (List.mem_filter.1 hc).1)]

/-- A numeral has a number exactly if its code points are spelt in their shortest forms. -/
lemma value_numeral_iff (hbytes : x.bytes = spell ss) (hss : ∀ s ∈ ss, s.IsSequence)
    (ht : x.token = .number) (h : IsNumeral (codePoints ss)) :
    (∃ n, x.value = .number n ∧ n ≠ .nan) ↔ ∀ s ∈ ss, s.IsShortest := by
  obtain ⟨⟨c, ds, hcs, hc⟩, hascii⟩ := ascii_of_isNumeral h
  have hhead : x.bytes.head? ≠ some 0x27 := by
    obtain ⟨os, ss', rfl, -⟩ := Symbol.exists_cons_of_codePoints hss hcs
    have hc' : c < 0x80 := Nat.lt_of_le_of_lt hc.2 (by decide)
    obtain ⟨-, -, -, -, hhead⟩ := opening hbytes (hss _ List.mem_cons_self) hc'
    intro heq
    have hv := ((hhead 0x27 (by decide)).1 heq).1
    have := hc.1
    omega
  rw [value_numeral ht hhead]
  constructor
  · rintro ⟨n, hn, hne⟩
    cases hn
    exact isShortest_of_ascii hss (hbytes ▸ ascii_of_numeralValue hne)
  · intro hshort
    obtain ⟨n, hread, hne⟩ := read?_isNumeral h
    have hdigits : (x.bytes.filter (· != 0x5F)).map (fun b => Char.ofNat b.toNat) =
        ((codePoints ss).filter (· != 0x5F)).map Char.ofNat := by
      rw [hbytes, spell_of_isShortest hss hshort hascii]
      exact filter_map_ofNat hascii
    rw [numeralValue, hdigits, hread]
    exact ⟨n, rfl, hne⟩

/-! ### Character literals -/

lemma value_char (ht : x.token = .number) (h : x.bytes.head? = some 0x27) :
    x.value = .number (.ofNat (charValue x.bytes)) := by
  simp [value, ht, h]

lemma firstCodePoint_append {c : Nat} {bs : List UInt8} (h : (codePoint c bs).IsSequence)
    (rest : List UInt8) : firstCodePoint (bs ++ rest) = c := by
  have hdecode := CodePoint.decode?_take_append h rest
  rw [List.take_length] at hdecode
  rw [firstCodePoint, hdecode]

lemma unescape_lt {c : Nat} (hc : c.isValidChar) : unescape c < 0x110000 := by
  rw [Utf8.isValidChar_iff] at hc
  unfold unescape
  split_ifs <;> omega

/-- Only the escape of a backslash stands for one. -/
lemma unescape_eq_backslash {c : Nat} : unescape c = 0x5C ↔ c = 0x5C := by
  unfold unescape
  split_ifs <;> simp_all

/-- A code point is taken as it is, unless it is a backslash in its shortest form. -/
lemma charValue_plain {c : Nat} {bs rest : List UInt8} (h : (codePoint c bs).IsSequence)
    (hstrip : strip 1 0x27 bytes = bs ++ rest)
    (hescape : c ≠ 0x5C ∨ ¬(codePoint c bs).IsShortest) : charValue bytes = c := by
  have hfirst := firstCodePoint_append h rest
  rw [charValue, hstrip]
  split
  · next escaped heq =>
    exfalso
    rcases h.bytes with ⟨hc, hbs⟩ | ⟨b, tail, rfl, hb, -⟩
    · rw [hbs] at heq
      have hbyte : UInt8.ofNat c = UInt8.ofNat 0x5C := (List.cons.inj heq).1
      rcases hescape with hescape | hescape
      · exact hescape (Symbol.ofNat_injective_of_ascii hc (by decide) hbyte)
      · exact hescape ((Symbol.isShortest_iff_of_ascii h hc).2 hbs)
    · obtain ⟨rfl, -⟩ := List.cons.inj heq
      exact absurd hb (by decide)
  · exact hfirst

lemma charValue_escaped {c : Nat} {bs rest : List UInt8} (h : (codePoint c bs).IsSequence)
    (hstrip : strip 1 0x27 bytes = 0x5C :: (bs ++ rest)) : charValue bytes = unescape c := by
  rw [charValue, hstrip]
  exact congrArg unescape (firstCodePoint_append h rest)

variable {c : Nat} (hbytes : x.bytes = spell ss) (hss : ∀ s ∈ ss, s.IsSequence)
include hbytes hss

/-- Stripped of its apostrophes, a character literal starts with its content. -/
lemma strip_char (inner : List Nat) (hcs : codePoints ss = 0x27 :: (inner ++ [0x27]))
    (h : x.bytes.head? = some 0x27) :
    ∃ ss' rest more, codePoints ss' = inner ∧ (∀ s ∈ ss', s.IsSequence) ∧
      strip 1 0x27 x.bytes = spell ss' ++ rest ∧ x.bytes.drop 1 = spell ss' ++ more := by
  obtain ⟨os, ss', qs, rfl, rfl⟩ := Symbol.exists_delimited hss hcs
  obtain ⟨ho, hrest⟩ := List.forall_mem_cons.1 hss
  obtain ⟨hss', hq⟩ := List.forall_mem_append.1 hrest
  obtain ⟨tail, hdrop, htail, hopen, hhead⟩ := opening hbytes ho (by decide)
  obtain ⟨-, hshort⟩ := (hhead 0x27 (by decide)).1 h
  obtain rfl : tail = [] := List.length_eq_zero_iff.1 (hopen.2 hshort)
  obtain ⟨rest, hstrip, -⟩ :=
    strip_closed hdrop htail hss' (List.forall_mem_singleton.1 hq) (by decide)
  rw [Symbol.spell_append] at hdrop
  exact ⟨ss', rest, _, rfl, hss', hstrip, hdrop⟩

variable (ht : x.token = .number)
include ht

/-- Where the opening apostrophe is not the shortest one, the literal is taken for a numeral. -/
lemma value_ne_number (hcs : codePoints ss = 0x27 :: cs) (h : x.bytes.head? ≠ some 0x27)
    {n : Number} (hn : n ≠ .nan) : x.value ≠ .number n := by
  obtain ⟨os, ss', rfl, -⟩ := Symbol.exists_cons_of_codePoints hss hcs
  obtain ⟨ho, -⟩ := List.forall_mem_cons.1 hss
  obtain ⟨-, -, -, -, hhead⟩ := opening hbytes ho (by decide)
  rw [value_numeral ht h]
  intro heq
  obtain rfl := Literal.number.inj heq
  have hshort := isShortest_of_ascii hss (hbytes ▸ ascii_of_numeralValue hn)
  exact h ((hhead 0x27 (by decide)).2 ⟨rfl, hshort _ List.mem_cons_self⟩)

/-- A character literal denotes its code point if its opening apostrophe is the shortest one. -/
lemma value_plainChar_iff (hcs : codePoints ss = [0x27, c, 0x27]) (hescape : c ≠ 0x5C) :
    x.value = .number (.ofNat c) ↔ x.bytes.head? = some 0x27 := by
  constructor
  · intro heq
    refine Decidable.byContradiction fun hhead => ?_
    exact value_ne_number hbytes hss ht hcs hhead (Number.ofNat_ne_nan c) heq
  · intro hhead
    obtain ⟨ss', rest, -, hinner, hss', hstrip, -⟩ :=
      strip_char hbytes hss [c] hcs hhead
    obtain ⟨bs, ss', rfl, -⟩ := Symbol.exists_cons_of_codePoints hss' hinner
    rw [Symbol.spell_cons, List.append_assoc] at hstrip
    rw [value_char ht hhead,
      charValue_plain (List.forall_mem_cons.1 hss').1 hstrip (.inl hescape)]

/-- An escaped character literal denotes what its escape stands for if its opening apostrophe and
its backslash are the shortest ones. A longer backslash is taken for the code point itself. -/
lemma value_escapedChar_iff (hcs : codePoints ss = [0x27, 0x5C, c, 0x27]) (hc : c.isValidChar) :
    x.value = .number (.ofNat (unescape c)) ↔
      x.bytes.head? = some 0x27 ∧ (x.bytes[1]? = some 0x5C ∨ c = 0x5C) := by
  by_cases hhead : x.bytes.head? = some 0x27
  · obtain ⟨ss', rest, more, hinner, hss', hstrip, hdrop⟩ :=
      strip_char hbytes hss [0x5C, c] hcs hhead
    obtain ⟨bs, ss₁, rfl, hcs₁⟩ := Symbol.exists_cons_of_codePoints hss' hinner
    obtain ⟨hb, hss₁⟩ := List.forall_mem_cons.1 hss'
    obtain ⟨bs', ss₂, rfl, -⟩ := Symbol.exists_cons_of_codePoints hss₁ hcs₁
    obtain ⟨hs, -⟩ := List.forall_mem_cons.1 hss₁
    obtain ⟨b, tail, rfl, -, htail, hbyte⟩ := hb.ascii (by decide)
    have hsecond : x.bytes[1]? = some 0x5C ↔ (codePoint 0x5C (b :: tail)).IsShortest := by
      have hat : x.bytes[1]? = some b := by
        rw [← List.head?_drop, hdrop]
        rfl
      have hbackslash : b = 0x5C ↔ _ := hbyte 0x5C (by decide)
      rw [hat, Option.some_inj, hbackslash]
      simp
    rw [value_char ht hhead, hsecond]
    by_cases hshort : (codePoint 0x5C (b :: tail)).IsShortest
    · have hshortest := (Symbol.isShortest_iff_of_ascii hb (by decide)).1 hshort
      have hescaped : strip 1 0x27 x.bytes = 0x5C :: (bs' ++ (spell ss₂ ++ rest)) := by
        rw [hstrip, hshortest]
        simp [Symbol.bytes]
      rw [charValue_escaped hs hescaped]
      exact iff_of_true rfl ⟨hhead, .inl hshort⟩
    · rw [Symbol.spell_cons, List.append_assoc] at hstrip
      rw [charValue_plain hb hstrip (.inr hshort)]
      constructor
      · intro heq
        have hsame := Number.eq_of_ofNat_eq (by decide)
          (Nat.lt_trans (unescape_lt hc) (by decide)) (Literal.number.inj heq)
        exact ⟨hhead, .inr (unescape_eq_backslash.1 hsame.symm)⟩
      · rintro ⟨-, hshort' | rfl⟩
        · exact absurd hshort' hshort
        · rfl
  · refine iff_of_false ?_ fun h => hhead h.1
    exact value_ne_number hbytes hss ht hcs hhead (Number.ofNat_ne_nan _)

end

end Lexeme

end ScriptGraph
