import ScriptGraph.Proofs.DecodingErrors
import ScriptGraph.Proofs.Literals.Values

/-!
# Values of literals as the scanner sees them

The scanner finds literals by their code points, and their values are read from their bytes. The two
agree exactly where the bytes that the reading depends on are the shortest ones for their code
points: in a character literal these are the opening apostrophe and the backslash of an escape, in
any other literal all of them.
-/

namespace ScriptGraph

open CodePoint (Decodes)
open ScriptGraph.Symbol (codePoints spell)

/-- Whether the value of a literal with the given code points can be read from its bytes. -/
def Legible (bytes : List UInt8) (cs : List Nat) : Prop :=
  if cs.head? = some 0x27 then
    bytes.head? = some 0x27 ∧
      (cs[1]? = some 0x5C → bytes[1]? = some 0x5C ∨ cs[2]? = some 0x5C)
  else bytes = cs.flatMap CodePoint.encode

instance (bytes : List UInt8) (cs : List Nat) : Decidable (Legible bytes cs) :=
  inferInstanceAs (Decidable (ite _ _ _))

namespace Lexeme

variable {x : Lexeme} {ss : List Symbol} {v : Literal}

lemma legible_iff (hbytes : x.bytes = spell ss) (hss : ∀ s ∈ ss, s.IsSequence)
    (hhead : (codePoints ss).head? ≠ some 0x27) :
    Legible x.bytes (codePoints ss) ↔ ∀ s ∈ ss, s.IsShortest := by
  rw [Legible, if_neg hhead, hbytes, Symbol.spell_eq_encode_iff hss]

/-- A literal denotes its value if that is legible, and has the value that it denotes only then. -/
lemma denotes_value (hbytes : x.bytes = spell ss) (hss : ∀ s ∈ ss, s.IsSequence)
    (hvalid : ∀ c ∈ codePoints ss, c.isValidChar)
    (hquote : x.token = .string →
      ∀ o q rest, ss = o :: q :: rest → o.value? = some 0x40 → q = .codePoint 0x22 [0x22])
    (h : Denotes x.token (codePoints ss) v) :
    (Legible x.bytes (codePoints ss) → Denotes x.token (codePoints ss) x.value) ∧
      (x.value = v → Legible x.bytes (codePoints ss)) := by
  have hplain (hhead : (codePoints ss).head? ≠ some 0x27) := legible_iff hbytes hss hhead
  have hsplit {t : Token} {cs : List Nat} {value v : Literal} {p : Prop} (h : Denotes t cs v)
      (hiff : value = v ↔ p) : (p → Denotes t cs value) ∧ (value = v → p) :=
    ⟨fun hp => hiff.2 hp ▸ h, hiff.1⟩
  generalize ht : x.token = t at h hquote ⊢
  generalize hcs : codePoints ss = cs at h hplain ⊢
  cases h with
  | string h =>
    refine hsplit (.string h) ?_
    rw [hplain (by simp)]
    exact value_string_iff hbytes hss hvalid ht hcs h
  | rawString h =>
    refine hsplit (.rawString h) ?_
    rw [hplain (by simp)]
    refine value_rawString_iff hbytes hss hvalid ht hcs h ?_
    rintro o q rest rfl
    obtain ⟨os, ss', heq, -⟩ := Symbol.exists_cons_of_codePoints hss hcs
    obtain ⟨rfl, -⟩ := List.cons.inj heq
    exact hquote rfl _ q rest rfl rfl
  | char hapostrophe hescape =>
    refine hsplit (.char hapostrophe hescape) ?_
    rw [value_plainChar_iff hbytes hss ht hcs hescape]
    simp [Legible, hescape]
  | escapedChar c =>
    refine hsplit (.escapedChar c) ?_
    have hc : c.isValidChar := hvalid c (by simp [hcs])
    rw [value_escapedChar_iff hbytes hss ht hcs hc]
    simp [Legible]
  | numeral h hn =>
    have hhead : cs.head? ≠ some 0x27 := by
      obtain ⟨⟨c, ds, rfl, hc⟩, -⟩ := ascii_of_isNumeral h
      rintro heq
      obtain rfl := Option.some.inj heq
      exact absurd hc.1 (by decide)
    have hiff := value_numeral_iff hbytes hss ht (hcs ▸ h)
    rw [hplain hhead, ← hiff]
    constructor
    · rintro ⟨n, hvalue, hne⟩
      rw [hvalue]
      exact .numeral h hne
    · intro hvalue
      exact ⟨_, hvalue, hn⟩
  | openIdent h =>
    refine hsplit (.openIdent h) ?_
    rw [hplain (by simp)]
    exact value_openIdent_iff hbytes hss hvalid ht hcs h
  | closedIdent h =>
    refine hsplit (.closedIdent h) ?_
    rw [hplain (by simp)]
    exact value_closedIdent_iff hbytes hss hvalid ht hcs

end Lexeme

namespace Lexer

variable {l : Lexer} {t : Token} {text : List UInt8}

lemma lexicon_afterAll (l : Lexer) (rs : List Request) : (l.afterAll rs).lexicon = l.lexicon := by
  obtain ⟨n, b, hrs⟩ := l.afterAll_eq_afterRaw rs
  rw [hrs]
  exact lexicon_afterRaw l n

lemma outcome_of_nextRaw (h : l.nextRaw.2 = .ok t) :
    (Scan.token l.lexicon l.cursor.rest).outcome = .ok t := by
  simp only [nextRaw] at h
  split at h
  · cases h
  · next hok =>
    cases h
    exact hok

/-- The symbols that a scan passes are sequences. -/
lemma isSequence_of_passed (hrest : l.cursor.rest = Symbol.decode text) :
    ∀ s ∈ l.cursor.rest.take (Scan.token l.lexicon l.cursor.rest).count, s.IsSequence := by
  intro s hs
  have hvalue := (Scan.sound_token l.lexicon l.cursor.rest).wellFormed s hs
  exact Symbol.isSequence_of_mem_decode (hrest ▸ List.mem_of_mem_take hs) hvalue

/-- A lexeme is spelt by the symbols that the scan has passed, which are sequences. -/
lemma sequences_nextRaw (h : l.nextRaw.2 = .ok t) (hrest : l.cursor.rest = Symbol.decode text) :
    ∃ ss, ss = l.cursor.rest.take (Scan.token l.lexicon l.cursor.rest).count ∧
      l.nextRaw.1.current.bytes = spell ss ∧ (∀ s ∈ ss, s.IsSequence) ∧
      Decodes (spell ss) (codePoints ss) [] := by
  have hsound := (Scan.sound_token l.lexicon l.cursor.rest).wellFormed
  have hsplit : Symbol.decode text =
      l.cursor.rest.take (Scan.token l.lexicon l.cursor.rest).count ++
        l.cursor.rest.drop (Scan.token l.lexicon l.cursor.rest).count := by
    rw [List.take_append_drop, hrest]
  obtain ⟨-, -, -, -, hdecodes, -⟩ := Symbol.decodes_of_decode_eq_append hsplit hsound
  exact ⟨_, rfl, bytes_nextRaw h, isSequence_of_passed hrest, hdecodes⟩

end Lexer

/-- A literal token of the language has a form by which it denotes a value. If its code points are
characters, its value is such a value exactly if it is legible. -/
theorem literal_denotes_value_iff (buffer : List UInt8) (offset size : Nat)
    (rs : List Lexer.Request) (t : Token)
    (h : ((Lexer.ofWindow .standard buffer offset size).afterAll rs).nextRaw.2 = .ok t) :
    let x := ((Lexer.ofWindow .standard buffer offset size).afterAll rs).nextRaw.1.current
    ∃ cs, Decodes x.bytes cs [] ∧ (IsLiteral t cs → (∃ v, Denotes t cs v) ∧
      ((∀ c ∈ cs, c.isValidChar) → (Denotes t cs x.value ↔ Legible x.bytes cs))) := by
  have hat : (Lexer.ofWindow .standard buffer offset size).cursor.At _ _ [] _ :=
    Cursor.At.ofWindow buffer offset size
  obtain ⟨before, rest, hafter⟩ := Lexer.exists_at_afterAll hat rs
  have hlexicon : ((Lexer.ofWindow .standard buffer offset size).afterAll rs).lexicon = .standard :=
    Lexer.lexicon_afterAll _ rs
  generalize (Lexer.ofWindow .standard buffer offset size).afterAll rs = l at *
  intro x
  obtain ⟨ss, hss, hbytes, hseq, hdecodes⟩ := Lexer.sequences_nextRaw h hafter.symbols
  have hmem : ∀ s ∈ l.cursor.rest, s.value?.isSome → s.IsSequence := by
    intro s hs
    exact Symbol.isSequence_of_mem_decode (hafter.symbols ▸ hs)
  have hscan := Lexer.outcome_of_nextRaw h
  rw [hlexicon] at hscan hss
  refine ⟨codePoints ss, hbytes ▸ hdecodes, ?_⟩
  intro hliteral
  have hpassed : Scan.passed l.cursor.rest (Scan.token .standard l.cursor.rest) = codePoints ss :=
    congrArg codePoints hss.symm
  obtain ⟨v, hv⟩ := Scan.denotes_token hmem hscan (hpassed ▸ hliteral)
  rw [hpassed] at hv
  have hquote : t = .string →
      ∀ o q rest, ss = o :: q :: rest → o.value? = some 0x40 → q = .codePoint 0x22 [0x22] := by
    rintro rfl o q rest' hfirst ho
    have hsplit := List.take_append_drop (Scan.token .standard l.cursor.rest).count l.cursor.rest
    rw [← hss, hfirst, List.cons_append, List.cons_append] at hsplit
    exact Scan.quote_of_string hmem hscan hsplit.symm ho
  refine ⟨⟨v, hv⟩, ?_⟩
  intro hvalid
  obtain rfl : x.token = t := Lexer.token_nextRaw (Prod.ext rfl h)
  constructor
  · intro hvalue
    exact (Lexeme.denotes_value hbytes hseq hvalid hquote hvalue).2 rfl
  · exact (Lexeme.denotes_value hbytes hseq hvalid hquote hv).1

/-- The literal `'\\n'` denotes a line feed. With a backslash of two bytes its value is a backslash;
with the one byte that is the shortest sequence, its value is what it denotes. -/
theorem literal_denotes_value_iff_longBackslash :
    let long := (Lexer.ofWindow .standard [0x27, 0xC1, 0x9C, 0x6E, 0x27] 0 5).afterAll []
    let short := (Lexer.ofWindow .standard [0x27, 0x5C, 0x6E, 0x27] 0 4).afterAll []
    long.nextRaw.2 = .ok .number ∧ short.nextRaw.2 = .ok .number ∧
      Decodes long.nextRaw.1.current.bytes [0x27, 0x5C, 0x6E, 0x27] [] ∧
      Denotes .number [0x27, 0x5C, 0x6E, 0x27] (.number (.ofNat 0x0A)) ∧
      long.nextRaw.1.current.value = .number (.ofNat 0x5C) ∧
      ¬Denotes .number [0x27, 0x5C, 0x6E, 0x27] long.nextRaw.1.current.value ∧
      Denotes .number [0x27, 0x5C, 0x6E, 0x27] short.nextRaw.1.current.value := by
  intro long short
  have hlong : long.nextRaw.2 = .ok .number := by decide +kernel
  have hshort : short.nextRaw.2 = .ok .number := by decide +kernel
  have hdecodes : Decodes [0x27, 0xC1, 0x9C, 0x6E, 0x27] [0x27, 0x5C, 0x6E, 0x27] [] :=
    .cons rfl (.cons rfl (.cons rfl (.cons rfl (.nil _))))
  have hdecodes' : Decodes [0x27, 0x5C, 0x6E, 0x27] [0x27, 0x5C, 0x6E, 0x27] [] :=
    .cons rfl (.cons rfl (.cons rfl (.cons rfl (.nil _))))
  have hbytes : long.nextRaw.1.current.bytes = [0x27, 0xC1, 0x9C, 0x6E, 0x27] := by decide +kernel
  have hbytes' : short.nextRaw.1.current.bytes = [0x27, 0x5C, 0x6E, 0x27] := by decide +kernel
  have hvalid : ∀ c ∈ [0x27, 0x5C, 0x6E, 0x27], Nat.isValidChar c := by decide
  obtain ⟨cs, hcs, hliteral⟩ := literal_denotes_value_iff _ 0 5 [] .number hlong
  obtain ⟨cs', hcs', hliteral'⟩ := literal_denotes_value_iff _ 0 4 [] .number hshort
  obtain rfl := hcs.unique (hbytes ▸ hdecodes)
  obtain rfl := hcs'.unique (hbytes' ▸ hdecodes')
  obtain ⟨-, hiff⟩ := hliteral (.inr (.inl rfl))
  obtain ⟨-, hiff'⟩ := hliteral' (.inr (.inl rfl))
  refine ⟨hlong, hshort, hcs, .escapedChar 0x6E, by decide +kernel, ?_, ?_⟩
  · rw [hiff hvalid, hbytes]
    decide
  · rw [hiff' hvalid, hbytes']
    decide

end ScriptGraph
