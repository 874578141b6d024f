import ScriptGraph.Proofs.Literals.Written

/-!
# Character literals denote code points

A character literal holds one code point of the codec, which stands for itself, or for a control
character if it is one of four behind a backslash. The apostrophe and the backslash need the
backslash. Of the texts in shortest form that start with an apostrophe, only those that start with
such a literal are read at all.
-/

namespace ScriptGraph

open CodePoint (encode)
open ScriptGraph.Symbol (shortest spell)

/-- The bytes of the character literals and the code points that they denote. -/
inductive IsCharLiteral : List UInt8 → Nat → Prop
  | plain {c : Nat} (hc : c < 0x80000000) (hquote : c ≠ 0x27) (hescape : c ≠ 0x5C) :
      IsCharLiteral (0x27 :: (encode c ++ [0x27])) c
  | escaped {c : Nat} (hc : c < 0x80000000) (hplain : c ∉ [0x6E, 0x72, 0x74, 0x30]) :
      IsCharLiteral (0x27 :: 0x5C :: (encode c ++ [0x27])) c
  | control {c n : Nat} (h : (c, n) ∈ [(0x6E, 0x0A), (0x72, 0x0D), (0x74, 0x09), (0x30, 0x00)]) :
      IsCharLiteral (0x27 :: 0x5C :: (encode c ++ [0x27])) n

/-- Whether a number is exactly a natural number. -/
def Number.IsExactly (x : Number) (n : Nat) : Prop :=
  ∃ rank, x = .ranked false rank ∧ units rank = n * unitsInOne

lemma Number.isExactly_ofNat {n : Nat} (h : n < 0x80000000) : (ofNat n).IsExactly n :=
  ⟨_, rfl, units_nearestRank (Nat.lt_trans h (by decide))⟩

variable {literal text : List UInt8} {c n : Nat}

/-- What stands behind a backslash denotes what its escape stands for. -/
lemma isCharLiteral_iff : IsCharLiteral literal n ↔
    (n < 0x80000000 ∧ n ≠ 0x27 ∧ n ≠ 0x5C ∧ literal = 0x27 :: (encode n ++ [0x27])) ∨
      ∃ c < 0x80000000, literal = 0x27 :: 0x5C :: (encode c ++ [0x27]) ∧
        n = Lexeme.unescape c := by
  constructor
  · intro h
    cases h with
    | plain hc hquote hescape => exact .inl ⟨hc, hquote, hescape, rfl⟩
    | escaped hc hplain =>
      exact .inr ⟨n, hc, rfl, (Lexeme.unescape_eq_self hplain).symm⟩
    | @control c _ h =>
      simp only [List.mem_cons, List.not_mem_nil, or_false, Prod.mk.injEq] at h
      refine .inr ⟨c, ?_, rfl, ?_⟩
      · omega
      · rcases h with ⟨rfl, rfl⟩ | ⟨rfl, rfl⟩ | ⟨rfl, rfl⟩ | ⟨rfl, rfl⟩ <;> rfl
  · rintro (⟨hc, hquote, hescape, rfl⟩ | ⟨c, hc, rfl, rfl⟩)
    · exact .plain hc hquote hescape
    · by_cases hplain : c ∈ [0x6E, 0x72, 0x74, 0x30]
      · refine .control ?_
        simp only [List.mem_cons, List.not_mem_nil, or_false] at hplain
        rcases hplain with rfl | rfl | rfl | rfl <;> decide
      · rw [Lexeme.unescape_eq_self hplain]
        exact .escaped hc hplain

/-! ### Values -/

namespace Lexeme

lemma strip_apostrophes (inner : List UInt8) :
    strip 1 0x27 (0x27 :: (inner ++ [0x27])) = inner ++ [] := by
  simp [strip]

/-- A character literal has the value that it denotes. -/
lemma charValue_of_isCharLiteral (h : IsCharLiteral literal n) :
    charValue literal = n ∧ n < 0x80000000 := by
  rcases isCharLiteral_iff.1 h with ⟨hn, hquote, hescape, rfl⟩ | ⟨c, hc, rfl, rfl⟩
  · exact ⟨charValue_plain (Symbol.isSequence_shortest hn) (strip_apostrophes _) (.inl hescape), hn⟩
  · have hstrip := strip_apostrophes (0x5C :: encode c)
    refine ⟨charValue_escaped (Symbol.isSequence_shortest hc) hstrip, ?_⟩
    unfold unescape
    split_ifs <;> omega

end Lexeme

/-! ### Scans -/

namespace Scan

/-- A character literal is a written text, which the scanner finds. -/
lemma token_of_isCharLiteral (h : IsCharLiteral literal n) :
    ∃ cs : List Nat, literal = cs.flatMap encode ∧ (∀ c ∈ cs, c < 0x80000000) ∧
      ∀ lexicon after, token lexicon (cs.map shortest ++ after) = done cs.length .number := by
  have hquote : encode 0x27 = [0x27] := rfl
  have hescape : encode 0x5C = [0x5C] := rfl
  rcases isCharLiteral_iff.1 h with ⟨hn, hne, hplain, rfl⟩ | ⟨c, hc, rfl, rfl⟩
  · refine ⟨[0x27, n, 0x27], by simp [hquote], by simp [hn], ?_⟩
    intro lexicon after
    show (char (shortest n :: shortest 0x27 :: after)).shift 1 = _
    rw [char_shortest after hne hplain]
    rfl
  · refine ⟨[0x27, 0x5C, c, 0x27], by simp [hquote, hescape], by simp [hc], ?_⟩
    intro lexicon after
    show (char (shortest 0x5C :: shortest c :: shortest 0x27 :: after)).shift 1 = _
    rw [char_shortest_escaped]
    rfl

/-- What a scan passes of a text in shortest form is written code point by code point. -/
lemma Sound.written {s : Scan} (hsound : Sound (Symbol.decode text) s)
    (hshort : ∀ s ∈ Symbol.decode text, s.value?.isSome → s.IsShortest) :
    ∃ rest, text = (passed (Symbol.decode text) s).flatMap encode ++ rest ∧
      ∀ c ∈ passed (Symbol.decode text) s, c < 0x80000000 := by
  have hmem : ∀ t ∈ (Symbol.decode text).take s.count, t.IsSequence ∧ t.IsShortest := by
    intro t ht
    have ht' := List.mem_of_mem_take ht
    have hvalue := hsound.wellFormed t ht
    exact ⟨Symbol.isSequence_of_mem_decode ht' hvalue, hshort t ht' hvalue⟩
  have hspell := (Symbol.spell_eq_encode_iff fun t ht => (hmem t ht).1).2 fun t ht => (hmem t ht).2
  refine ⟨spell ((Symbol.decode text).drop s.count), ?_, ?_⟩
  · rw [passed, ← hspell, ← Symbol.spell_append, List.take_append_drop, Symbol.spell_decode]
  · intro c hc
    obtain ⟨t, ht, hvalue⟩ := List.mem_filterMap.1 hc
    cases t with
    | malformed b => cases hvalue
    | codePoint v bs =>
      obtain rfl := Option.some.inj hvalue
      obtain ⟨hpos, -⟩ := CodePoint.encodedLength_le_of_decode? (hmem _ ht).1
      exact CodePoint.encodedLength_pos_iff.1 hpos

/-- A text in shortest form starts with each character literal that is found in it. -/
lemma isCharLiteral_of_char {t : Token}
    (hshort : ∀ s ∈ Symbol.decode text, s.value?.isSome → s.IsShortest)
    (h : (char (Symbol.decode text)).outcome = .ok t) :
    ∃ literal n rest, IsCharLiteral literal n ∧ 0x27 :: text = literal ++ rest := by
  obtain ⟨rest, htext, hbound⟩ := (sound_char (Symbol.decode text)).written hshort
  have hquote : encode 0x27 = [0x27] := rfl
  have hescape : encode 0x5C = [0x5C] := rfl
  rcases char_form h with ⟨c, hne, hplain, hpassed⟩ | ⟨c, hpassed⟩
  · rw [hpassed] at htext hbound
    refine ⟨_, c, rest, .plain (hbound c (by simp)) hne hplain, ?_⟩
    simp [htext, hquote]
  · rw [hpassed] at htext hbound
    have hliteral := isCharLiteral_iff.2 (.inr ⟨c, hbound c (by simp), rfl, rfl⟩)
    refine ⟨_, _, rest, hliteral, ?_⟩
    simp [htext, hquote, hescape]

end Scan

/-! ### Answers -/

lemma sift_number (lexicon : Lexicon) (b : Breaks) : (b.sift lexicon .number).2 = true := rfl

lemma Lexer.decode_or_unexpected_of_nextRaw {l : Lexer} {e : Error} (h : l.nextRaw.2 = .error e) :
    (∃ location, e = .decode location) ∨
      ∃ location expectation got, e = .unexpected location expectation got := by
  simp only [nextRaw] at h
  split at h
  · next fault _ =>
    cases h
    cases fault with
    | malformed => exact .inl ⟨_, rfl⟩
    | unexpected expectation got => exact .inr ⟨_, expectation, got, rfl⟩
  · cases h

/-- A text in shortest form that starts with an apostrophe is read only if it starts with a
character literal. -/
lemma Lexer.exists_isCharLiteral_of_nextRaw {lexicon : Lexicon} {t : Token}
    (hshort : ∀ s ∈ Symbol.decode (0x27 :: text), s.value?.isSome → s.IsShortest)
    (h : (ofBytes lexicon (0x27 :: text)).nextRaw.2 = .ok t) :
    ∃ literal n rest, IsCharLiteral literal n ∧ 0x27 :: text = literal ++ rest := by
  have hdecode : Symbol.decode (0x27 :: text) = .codePoint 0x27 [0x27] :: Symbol.decode text :=
    Symbol.decode_of_some (show CodePoint.decode? (0x27 :: text) = some (0x27, 1) from rfl)
  have hrest : (ofBytes lexicon (0x27 :: text)).cursor.rest =
      .codePoint 0x27 [0x27] :: Symbol.decode text :=
    (congrArg Cursor.rest (Cursor.ofBytes_eq _)).trans hdecode
  have hscan := outcome_of_nextRaw h
  rw [hrest] at hscan
  have hchar : (Scan.char (Symbol.decode text)).outcome = .ok t := hscan
  refine Scan.isCharLiteral_of_char ?_ hchar
  intro s hs
  exact hshort s (hdecode ▸ List.mem_cons_of_mem _ hs)

/-- A lexer that reads a character literal answers with this literal, whatever follows it, and its
value is exactly the code point that the literal denotes. Any other text in shortest form that
starts with an apostrophe is refused. -/
theorem char_literals_exact (lexicon : Lexicon) (r : Lexer.Request) :
    (∀ literal n, IsCharLiteral literal n → ∀ rest,
      let answer := (Lexer.ofBytes lexicon (literal ++ rest)).serve r
      answer.2 = .ok .number ∧ answer.1.current = ⟨.number, 0, literal, .beginning⟩ ∧
        ∃ x, answer.1.current.value = .number x ∧ x.IsExactly n) ∧
    ∀ text, (∀ s ∈ Symbol.decode (0x27 :: text), s.value?.isSome → s.IsShortest) →
      (¬∃ literal n rest, IsCharLiteral literal n ∧ 0x27 :: text = literal ++ rest) →
      ∃ e, ((Lexer.ofBytes lexicon (0x27 :: text)).serve r).2 = .error e ∧
        ((∃ location, e = .decode location) ∨
          ∃ location expectation got, e = .unexpected location expectation got) := by
  constructor
  · intro literal n h rest answer
    obtain ⟨hvalue, hn⟩ := Lexeme.charValue_of_isCharLiteral h
    obtain ⟨cs, rfl, hcs, hscan⟩ := Scan.token_of_isCharLiteral h
    obtain ⟨hok, hcurrent⟩ := Lexer.serve_written hcs sift_number (hscan lexicon) rest r
    refine ⟨hok, hcurrent, .ofNat n, ?_, Number.isExactly_ofNat hn⟩
    rw [show answer.1.current = _ from hcurrent, ← hvalue]
    refine Lexeme.value_char rfl ?_
    rcases isCharLiteral_iff.1 h with ⟨-, -, -, hliteral⟩ | ⟨c, -, hliteral, -⟩
    · rw [hliteral]
      rfl
    · rw [hliteral]
      rfl
  · intro text hshort hnot
    cases hraw : (Lexer.ofBytes lexicon (0x27 :: text)).nextRaw.2 with
    | error e =>
      exact ⟨e, Lexer.serve_of_error hraw r, Lexer.decode_or_unexpected_of_nextRaw hraw⟩
    | ok t => exact absurd (Lexer.exists_isCharLiteral_of_nextRaw hshort hraw) hnot

/-- The largest code point, a surrogate, and an apostrophe and a line feed behind a backslash are
read. An apostrophe alone is refused. -/
theorem char_literals_exact_outermost :
    let largest := (Lexer.ofBytes .standard
      ([0x27, 0xFD, 0xBF, 0xBF, 0xBF, 0xBF, 0xBF, 0x27] ++ [0xFF])).serve .any
    let surrogate := (Lexer.ofBytes .standard ([0x27, 0xED, 0xA0, 0x80, 0x27] ++ [])).serve .any
    let apostrophe := (Lexer.ofBytes .standard ([0x27, 0x5C, 0x27, 0x27] ++ [0x27])).serve .any
    let lineFeed := (Lexer.ofBytes .standard ([0x27, 0x5C, 0x6E, 0x27] ++ [])).serve .significant
    let lone := (Lexer.ofBytes .standard [0x27]).serve .significant
    largest.2 = .ok .number ∧ largest.1.current.stop = 8 ∧
      (∃ x, largest.1.current.value = .number x ∧ x.IsExactly 0x7FFFFFFF) ∧
      (∃ x, surrogate.1.current.value = .number x ∧ x.IsExactly 0xD800) ∧
      (∃ x, apostrophe.1.current.value = .number x ∧ x.IsExactly 0x27) ∧
      (∃ x, lineFeed.1.current.value = .number x ∧ x.IsExactly 0x0A) ∧
      ∃ e, lone.2 = .error e := by
  intro largest surrogate apostrophe lineFeed lone
  obtain ⟨hread, -⟩ := char_literals_exact .standard .any
  obtain ⟨hread', hrefused⟩ := char_literals_exact .standard .significant
  have hlargest : IsCharLiteral [0x27, 0xFD, 0xBF, 0xBF, 0xBF, 0xBF, 0xBF, 0x27] 0x7FFFFFFF :=
    .plain (c := 0x7FFFFFFF) (by decide) (by decide) (by decide)
  have hsurrogate : IsCharLiteral [0x27, 0xED, 0xA0, 0x80, 0x27] 0xD800 :=
    .plain (c := 0xD800) (by decide) (by decide) (by decide)
  have hapostrophe : IsCharLiteral [0x27, 0x5C, 0x27, 0x27] 0x27 :=
    .escaped (c := 0x27) (by decide) (by decide)
  have hlineFeed : IsCharLiteral [0x27, 0x5C, 0x6E, 0x27] 0x0A := .control (c := 0x6E) (by decide)
  obtain ⟨hok, hcurrent, hvalue⟩ := hread _ _ hlargest [0xFF]
  obtain ⟨-, -, hvalue₁⟩ := hread _ _ hsurrogate []
  obtain ⟨-, -, hvalue₂⟩ := hread _ _ hapostrophe [0x27]
  obtain ⟨-, -, hvalue₃⟩ := hread' _ _ hlineFeed []
  refine ⟨hok, (congrArg Lexeme.stop hcurrent).trans rfl, hvalue, hvalue₁, hvalue₂, hvalue₃, ?_⟩
  have hshort : ∀ s ∈ Symbol.decode [0x27], s.value?.isSome → s.IsShortest := by
    intro s hs _
    obtain rfl := List.mem_singleton.1 (show s ∈ [Symbol.codePoint 0x27 [0x27]] from hs)
    rfl
  have hnot : ¬∃ literal n rest, IsCharLiteral literal n ∧ [0x27] = literal ++ rest := by
    rintro ⟨literal, n, rest, hliteral, heq⟩
    rcases isCharLiteral_iff.1 hliteral with ⟨-, -, -, rfl⟩ | ⟨c, -, rfl, -⟩ <;> simp at heq
  obtain ⟨e, he, -⟩ := hrefused _ hshort hnot
  exact ⟨e, he⟩

end ScriptGraph
