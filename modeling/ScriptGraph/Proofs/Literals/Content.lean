import ScriptGraph.Proofs.Literals.Forms

/-!
# Content of literals

The content of a literal is read from its bytes, which are taken as standard text. So it reads as
the text of its code points exactly if all of them have their shortest sequences: any other sequence
reads as more characters than one. Replacing escapes does not make up for that.
-/

namespace ScriptGraph

open Utf8 (replacement)

namespace Symbol

variable {s : Symbol} {ss : List Symbol} {c : Nat} {bs : List UInt8} {cs : List Nat}

lemma exists_cons_of_codePoints (hss : ∀ s ∈ ss, s.IsSequence) (h : codePoints ss = c :: cs) :
    ∃ bs ss', ss = codePoint c bs :: ss' ∧ codePoints ss' = cs := by
  match ss with
  | [] => cases h
  | malformed b :: ss => exact (hss _ List.mem_cons_self).elim
  | codePoint v bs :: ss =>
    cases h
    exact ⟨bs, ss, rfl, rfl⟩

lemma length_codePoints (hss : ∀ s ∈ ss, s.IsSequence) : (codePoints ss).length = ss.length := by
  induction ss with
  | nil => rfl
  | cons s ss ih =>
    obtain ⟨hs, hrest⟩ := List.forall_mem_cons.1 hss
    cases s with
    | malformed b => exact hs.elim
    | codePoint v bs => exact congrArg (· + 1) (ih hrest)

/-- A symbol reads as one character at least, and as just one if it is the shortest. -/
lemma length_chars (hs : (codePoint c bs).IsSequence) (hc : c.isValidChar) :
    0 < (codePoint c bs).chars.length ∧
      ((codePoint c bs).chars.length = 1 ↔ (codePoint c bs).IsShortest) := by
  by_cases hshort : (codePoint c bs).IsShortest
  · simp [chars_of_isShortest hc hshort, hshort]
  · obtain ⟨n, hn⟩ := chars_of_not_isShortest hs hshort
    simp [hn, hshort]

lemma toNat_ofNat_of_isValidChar (hc : c.isValidChar) : (Char.ofNat c).toNat = c := by
  rw [Char.ofNat, dif_pos hc]
  rfl

lemma backslash_not_mem_replicate (k : Nat) : '\\' ∉ List.replicate k replacement := by
  intro hmem
  cases List.eq_of_mem_replicate hmem

/-- Only a backslash in its shortest form reads as a backslash. -/
lemma backslash_not_mem_chars (hs : (codePoint c bs).IsSequence) (hc : c.isValidChar)
    (h : c ≠ 0x5C ∨ ¬(codePoint c bs).IsShortest) : '\\' ∉ (codePoint c bs).chars := by
  by_cases hshort : (codePoint c bs).IsShortest
  · have hne : c ≠ 0x5C := h.resolve_right (not_not_intro hshort)
    rw [chars_of_isShortest hc hshort, List.mem_singleton]
    intro heq
    have htoNat := congrArg Char.toNat heq
    rw [toNat_ofNat_of_isValidChar hc] at htoNat
    exact hne htoNat.symm
  · obtain ⟨n, hn⟩ := chars_of_not_isShortest hs hshort
    rw [hn]
    exact backslash_not_mem_replicate (n + 2)

/-- The shortest sequences read as the text of their code points. -/
lemma flatMap_chars_of_isShortest (hvalid : ∀ c ∈ codePoints ss, c.isValidChar)
    (hshort : ∀ s ∈ ss, s.IsShortest) : ss.flatMap chars = (codePoints ss).map Char.ofNat := by
  induction ss with
  | nil => rfl
  | cons s ss ih =>
    obtain ⟨hs, hrest⟩ := List.forall_mem_cons.1 hshort
    cases s with
    | malformed b => exact hs.elim
    | codePoint v bs =>
      obtain ⟨hv, hvalid⟩ := List.forall_mem_cons.1 hvalid
      rw [List.flatMap_cons, chars_of_isShortest hv hs, ih hvalid hrest]
      rfl

lemma length_flatMap_chars (hss : ∀ s ∈ ss, s.IsSequence)
    (hvalid : ∀ c ∈ codePoints ss, c.isValidChar) :
    ss.length ≤ (ss.flatMap chars).length ∧
      ((ss.flatMap chars).length = ss.length → ∀ s ∈ ss, s.IsShortest) := by
  induction ss with
  | nil => simp
  | cons s ss ih =>
    obtain ⟨hs, hrest⟩ := List.forall_mem_cons.1 hss
    cases s with
    | malformed b => exact hs.elim
    | codePoint c bs =>
      obtain ⟨hc, hvalid⟩ := List.forall_mem_cons.1 hvalid
      obtain ⟨hle, hshort⟩ := ih hrest hvalid
      obtain ⟨hpos, hone⟩ := length_chars hs hc
      rw [List.flatMap_cons, List.length_append, List.length_cons]
      refine ⟨by omega, ?_⟩
      intro hlen
      exact List.forall_mem_cons.2 ⟨hone.1 (by omega), hshort (by omega)⟩

/-- Content that is taken as it is reads as the text of its code points exactly if they are spelt in
their shortest forms, and no bytes of delimiters stay at either end. -/
lemma verbatim_iff (hss : ∀ s ∈ ss, s.IsSequence) (hvalid : ∀ c ∈ codePoints ss, c.isValidChar)
    (k m : Nat) :
    List.replicate k replacement ++ ss.flatMap chars ++ List.replicate m replacement =
        (codePoints ss).map Char.ofNat ↔
      k = 0 ∧ m = 0 ∧ ∀ s ∈ ss, s.IsShortest := by
  constructor
  · intro h
    obtain ⟨hle, hshort⟩ := length_flatMap_chars hss hvalid
    have hlen := congrArg List.length h
    simp only [List.length_append, List.length_replicate, List.length_map, length_codePoints hss]
      at hlen
    exact ⟨by omega, by omega, hshort (by omega)⟩
  · rintro ⟨rfl, rfl, hshort⟩
    rw [flatMap_chars_of_isShortest hvalid hshort]
    simp

end Symbol

/-! ### Escapes -/

namespace Lexeme

open ScriptGraph.Symbol (backslash_not_mem_replicate codePoints)

variable {ss : List Symbol} {inner content : List Nat} {c : Nat} {bs bs' : List UInt8}
  {ds : List Char}

lemma replaceEscapes_append {cs : List Char} (h : '\\' ∉ cs) (ds : List Char) :
    replaceEscapes (cs ++ ds) = cs ++ replaceEscapes ds := by
  induction cs with
  | nil => rfl
  | cons c cs ih =>
    rw [List.mem_cons, not_or] at h
    rw [List.cons_append, replaceEscapes, ih h.2]
    · rfl
    · rintro rfl
      exact absurd rfl h.1
    · rintro _ _ rfl
      exact absurd rfl h.1

/-- After a backslash, the first character is taken with it. -/
lemma length_replaceEscapes_escape {cs : List Char} (hne : cs ≠ []) (h : '\\' ∉ cs.tail)
    (ds : List Char) :
    (replaceEscapes ('\\' :: (cs ++ ds))).length = cs.length + (replaceEscapes ds).length := by
  match cs with
  | c :: cs =>
    rw [List.tail_cons] at h
    rw [List.cons_append, replaceEscapes, replaceEscapes_append h]
    simp [Nat.add_right_comm]

/-- A symbol does not shorten what follows, even if it is a backslash. -/
lemma le_length_replaceEscapes (hs : (Symbol.codePoint c bs).IsSequence) (hc : c.isValidChar)
    {n : Nat} (hplain : n ≤ (replaceEscapes ds).length)
    (hescape : n ≤ (replaceEscapes ('\\' :: ds)).length) :
    n ≤ (replaceEscapes ((Symbol.codePoint c bs).chars ++ ds)).length := by
  by_cases h : c = 0x5C ∧ (Symbol.codePoint c bs).IsShortest
  · obtain ⟨rfl, hshort⟩ := h
    rw [Symbol.chars_of_isShortest hc hshort]
    exact hescape
  · rw [not_and_or] at h
    rw [replaceEscapes_append (Symbol.backslash_not_mem_chars hs hc h), List.length_append]
    exact Nat.le_add_left_of_le hplain

lemma length_replaceEscapes_escaped (hs : (Symbol.codePoint c bs).IsSequence)
    (hc : c.isValidChar) (ds : List Char) :
    (replaceEscapes ('\\' :: ((Symbol.codePoint c bs).chars ++ ds))).length =
      (Symbol.codePoint c bs).chars.length + (replaceEscapes ds).length := by
  obtain ⟨hpos, -⟩ := Symbol.length_chars hs hc
  refine length_replaceEscapes_escape (List.ne_nil_of_length_pos hpos) ?_ ds
  by_cases hshort : (Symbol.codePoint c bs).IsShortest
  · rw [Symbol.chars_of_isShortest hc hshort]
    exact List.not_mem_nil
  · intro hmem
    exact Symbol.backslash_not_mem_chars hs hc (.inr hshort) (List.mem_of_mem_tail hmem)

/-- Whether some characters with their escapes replaced are no fewer than a number, whether a
backslash precedes them or not, and are as many only under a condition. -/
structure NoShorter (ds : List Char) (n : Nat) (condition : Prop) : Prop where
  plain : n ≤ (replaceEscapes ds).length
  escaped : n ≤ (replaceEscapes ('\\' :: ds)).length
  exact : (replaceEscapes ds).length = n → condition

lemma NoShorter.replicate (m : Nat) : NoShorter (List.replicate m replacement) m True := by
  have hplain := backslash_not_mem_replicate m
  refine ⟨?_, ?_, fun _ => trivial⟩
  · have happend := replaceEscapes_append hplain []
    rw [List.append_nil] at happend
    simp [happend]
  · cases m with
    | zero => exact Nat.zero_le _
    | succ m =>
      have hne : List.replicate (m + 1) replacement ≠ [] := by simp
      have hescape := length_replaceEscapes_escape hne
        (fun hmem => hplain (List.mem_of_mem_tail hmem)) []
      rw [List.append_nil] at hescape
      simp [hescape]

variable {n : Nat} {condition : Prop}

/-- A code point that needs no escape stands for itself. -/
lemma NoShorter.cons (h : NoShorter ds n condition) (hs : (Symbol.codePoint c bs).IsSequence)
    (hc : c.isValidChar) (hescape : c ≠ 0x5C) :
    NoShorter ((Symbol.codePoint c bs).chars ++ ds) (n + 1)
      ((Symbol.codePoint c bs).IsShortest ∧ condition) := by
  obtain ⟨hpos, hiff⟩ := Symbol.length_chars hs hc
  have hmem := Symbol.backslash_not_mem_chars hs hc (.inl hescape)
  have hplain := h.plain
  constructor
  · rw [replaceEscapes_append hmem, List.length_append]
    omega
  · rw [length_replaceEscapes_escaped hs hc]
    omega
  · rw [replaceEscapes_append hmem, List.length_append]
    intro hlen
    exact ⟨hiff.1 (by omega), h.exact (by omega)⟩

/-- A backslash and a code point stand for one. -/
lemma NoShorter.escape (h : NoShorter ds n condition)
    (hb : (Symbol.codePoint 0x5C bs).IsSequence) (hs : (Symbol.codePoint c bs').IsSequence)
    (hc : c.isValidChar) :
    NoShorter ((Symbol.codePoint 0x5C bs).chars ++ ((Symbol.codePoint c bs').chars ++ ds)) (n + 1)
      ((Symbol.codePoint 0x5C bs).IsShortest ∧ (Symbol.codePoint c bs').IsShortest ∧
        condition) := by
  have hbackslash : Nat.isValidChar 0x5C := .inl (by decide)
  obtain ⟨hpos, hiff⟩ := Symbol.length_chars hb hbackslash
  obtain ⟨hpos', hiff'⟩ := Symbol.length_chars hs hc
  have hplain := h.plain
  have hsecond := le_length_replaceEscapes hs hc hplain h.escaped
  by_cases hshort : (Symbol.codePoint 0x5C bs).IsShortest
  · have hchars : (Symbol.codePoint 0x5C bs).chars = ['\\'] :=
      Symbol.chars_of_isShortest hbackslash hshort
    have hlen := length_replaceEscapes_escaped hs hc ds
    constructor
    · rw [hchars, List.singleton_append, hlen]
      omega
    · rw [length_replaceEscapes_escaped hb hbackslash]
      omega
    · rw [hchars, List.singleton_append, hlen]
      intro heq
      exact ⟨hshort, hiff'.1 (by omega), h.exact (by omega)⟩
  · -- The backslash reads as two characters at least, which makes up for what follows it.
    have hmem := Symbol.backslash_not_mem_chars hb hbackslash (.inr hshort)
    have hlong : (Symbol.codePoint 0x5C bs).chars.length ≠ 1 := mt hiff.1 hshort
    constructor
    · rw [replaceEscapes_append hmem, List.length_append]
      omega
    · rw [length_replaceEscapes_escaped hb hbackslash]
      omega
    · rw [replaceEscapes_append hmem, List.length_append]
      intro heq
      omega

/-- Content with its escapes replaced has no fewer characters than it denotes code points, and has
as many only if it is spelt in shortest forms. -/
lemma noShorter_of_escaped (h : Escaped inner content) (hss : ∀ s ∈ ss, s.IsSequence)
    (hcs : codePoints ss = inner) (hvalid : ∀ c ∈ inner, c.isValidChar) (m : Nat) :
    NoShorter (ss.flatMap Symbol.chars ++ List.replicate m replacement) (content.length + m)
      (∀ s ∈ ss, s.IsShortest) := by
  induction h generalizing ss with
  | nil =>
    have hlen := Symbol.length_codePoints hss
    rw [hcs] at hlen
    obtain rfl := List.length_eq_zero_iff.1 hlen.symm
    simpa using NoShorter.replicate m
  | plain hquote hescape h ih =>
    obtain ⟨bs, ss, rfl, htail⟩ := Symbol.exists_cons_of_codePoints hss hcs
    obtain ⟨hs, hrest⟩ := List.forall_mem_cons.1 hss
    obtain ⟨hc, hvalid⟩ := List.forall_mem_cons.1 hvalid
    rw [List.flatMap_cons, List.append_assoc, List.length_cons, Nat.add_right_comm,
      List.forall_mem_cons]
    exact (ih hrest htail hvalid).cons hs hc hescape
  | escape c h ih =>
    obtain ⟨bs, ss', rfl, hcs'⟩ := Symbol.exists_cons_of_codePoints hss hcs
    obtain ⟨hb, hrest'⟩ := List.forall_mem_cons.1 hss
    obtain ⟨bs', ss, rfl, htail⟩ := Symbol.exists_cons_of_codePoints hrest' hcs'
    obtain ⟨hs, hrest⟩ := List.forall_mem_cons.1 hrest'
    obtain ⟨hc, hvalid⟩ := List.forall_mem_cons.1 (List.forall_mem_cons.1 hvalid).2
    rw [List.flatMap_cons, List.flatMap_cons, List.append_assoc, List.append_assoc,
      List.length_cons, Nat.add_right_comm, List.forall_mem_cons, List.forall_mem_cons]
    exact (ih hrest htail hvalid).escape hb hs hc

/-- Characters denote what their code points denote, with the escapes replaced. -/
lemma replaceEscapes_map (h : Escaped inner content) (hvalid : ∀ c ∈ inner, c.isValidChar) :
    replaceEscapes (inner.map Char.ofNat) = content.map Char.ofNat := by
  induction h with
  | nil => rfl
  | @plain c inner content hquote hescape h ih =>
    obtain ⟨hc, hvalid⟩ := List.forall_mem_cons.1 hvalid
    have hmem : '\\' ∉ [Char.ofNat c] := by
      rw [List.mem_singleton]
      intro heq
      have htoNat := congrArg Char.toNat heq
      rw [Symbol.toNat_ofNat_of_isValidChar hc] at htoNat
      exact hescape htoNat.symm
    have happend := replaceEscapes_append hmem (inner.map Char.ofNat)
    rw [List.map_cons, List.map_cons, ← ih hvalid]
    exact happend
  | escape c h ih =>
    obtain ⟨-, hvalid⟩ := List.forall_mem_cons.1 hvalid
    obtain ⟨hc, hvalid⟩ := List.forall_mem_cons.1 hvalid
    rw [List.map_cons, List.map_cons, List.map_cons, ← ih hvalid]
    show Char.ofNat (unescape (Char.ofNat c).toNat) :: _ = _
    rw [Symbol.toNat_ofNat_of_isValidChar hc]

/-- Content with escapes reads as what it denotes exactly if it is spelt in shortest forms, and no
bytes of delimiters stay at either end. -/
lemma replaceEscapes_iff (h : Escaped (codePoints ss) content) (hss : ∀ s ∈ ss, s.IsSequence)
    (hvalid : ∀ c ∈ codePoints ss, c.isValidChar) (k m : Nat) :
    replaceEscapes (List.replicate k replacement ++ ss.flatMap Symbol.chars ++
        List.replicate m replacement) = content.map Char.ofNat ↔
      k = 0 ∧ m = 0 ∧ ∀ s ∈ ss, s.IsShortest := by
  rw [List.append_assoc, replaceEscapes_append (backslash_not_mem_replicate k)]
  constructor
  · intro heq
    have hbounds := noShorter_of_escaped h hss rfl hvalid m
    have hle := hbounds.plain
    have hlen := congrArg List.length heq
    rw [List.length_append, List.length_replicate, List.length_map] at hlen
    exact ⟨by omega, by omega, hbounds.exact (by omega)⟩
  · rintro ⟨rfl, rfl, hshort⟩
    rw [Symbol.flatMap_chars_of_isShortest hvalid hshort, List.replicate_zero, List.append_nil,
      replaceEscapes_map h hvalid]
    rfl

end Lexeme

end ScriptGraph
