import Mathlib.Data.List.Basic
import ScriptGraph.Proofs.Literals.Written

/-!
# String literals denote what they spell

A text can be spelt in many ways between the quotes of a string literal: a character stands for
itself or after a backslash, and four control characters have escapes of their own. A raw string
literal holds its text verbatim. However a text is spelt, the lexer finds the literal, whatever
follows it, and its value is the text.
-/

namespace ScriptGraph

open ScriptGraph.Symbol (shortest)

/-- The ways to spell a text between the quotes of a string literal. -/
inductive Spells : List Char → List Char → Prop
  | nil : Spells [] []
  | plain {c : Char} {spelling text : List Char} (hquote : c ≠ '"') (hescape : c ≠ '\\')
      (h : Spells spelling text) : Spells (c :: spelling) (c :: text)
  | escaped {c : Char} {spelling text : List Char} (hc : c ∉ ['n', 'r', 't', '0'])
      (h : Spells spelling text) : Spells ('\\' :: c :: spelling) (c :: text)
  | control {c d : Char} {spelling text : List Char}
      (hc : (c, d) ∈ [('n', '\n'), ('r', '\r'), ('t', '\t'), ('0', '\x00')])
      (h : Spells spelling text) : Spells ('\\' :: c :: spelling) (d :: text)

/-- The string literals for a text, with escapes or verbatim. -/
inductive IsStringLiteral : List Char → List Char → Prop
  | escaped {spelling text : List Char} (h : Spells spelling text) :
      IsStringLiteral ('"' :: (spelling ++ ['"'])) text
  | verbatim {text : List Char} (h : '"' ∉ text) :
      IsStringLiteral ('@' :: '"' :: (text ++ ['"'])) text

/-- Every text has a spelling, since all characters that need a backslash may have one. -/
lemma exists_spells (text : List Char) : ∃ spelling, Spells spelling text := by
  induction text with
  | nil => exact ⟨[], .nil⟩
  | cons c text ih =>
    obtain ⟨spelling, h⟩ := ih
    by_cases hquote : c = '"'
    · exact ⟨'\\' :: c :: spelling, .escaped (by simp [hquote]) h⟩
    by_cases hescape : c = '\\'
    · exact ⟨'\\' :: c :: spelling, .escaped (by simp [hescape]) h⟩
    · exact ⟨c :: spelling, .plain hquote hescape h⟩

/-- A spelling denotes its text by its code points. -/
lemma Spells.escaped_toNat {spelling text : List Char} (h : Spells spelling text) :
    Escaped (spelling.map Char.toNat) (text.map Char.toNat) := by
  induction h with
  | nil => exact .nil
  | plain hquote hescape h ih =>
    exact .plain (fun heq => hquote (Char.toNat_inj.1 heq))
      (fun heq => hescape (Char.toNat_inj.1 heq)) ih
  | @escaped c spelling text hc h ih =>
    have hnot : c.toNat ∉ ['n', 'r', 't', '0'].map Char.toNat := by
      rwa [List.mem_map_of_injective fun _ _ => Char.toNat_inj.1]
    have hescape := Escaped.escape c.toNat ih
    rwa [Lexeme.unescape_eq_self hnot] at hescape
  | @control c d spelling text hc h ih =>
    have hunescape : Lexeme.unescape c.toNat = d.toNat := by
      simp only [List.mem_cons, List.not_mem_nil, or_false, Prod.mk.injEq] at hc
      rcases hc with ⟨rfl, rfl⟩ | ⟨rfl, rfl⟩ | ⟨rfl, rfl⟩ | ⟨rfl, rfl⟩ <;> rfl
    have hescape := Escaped.escape c.toNat ih
    rwa [hunescape] at hescape

lemma textOf_toNat (text : List Char) : textOf (text.map Char.toNat) = String.ofList text := by
  rw [textOf, List.map_map]
  congr 1
  exact (List.map_congr_left fun c _ => Char.ofNat_toNat c).trans (List.map_id text)

lemma encode_ofList (text : List Char) :
    Utf8.encode (String.ofList text) = (text.map Char.toNat).flatMap CodePoint.encode := by
  rw [Utf8.encode, String.toList_ofList, List.flatMap_map]

/-- A string literal denotes its text by its code points. -/
lemma IsStringLiteral.denotes {literal text : List Char} (h : IsStringLiteral literal text) :
    Denotes .string (literal.map Char.toNat) (.string (String.ofList text)) := by
  rw [← textOf_toNat]
  cases h with
  | escaped h =>
    rw [List.map_cons, List.map_append]
    exact .string h.escaped_toNat
  | verbatim h =>
    rw [List.map_cons, List.map_cons, List.map_append]
    refine .rawString ?_
    intro hmem
    obtain ⟨c, hc, heq⟩ := List.mem_map.1 hmem
    obtain rfl : c = '"' := Char.toNat_inj.1 heq
    exact h hc

/-! ### Texts as symbols -/

lemma lt_of_isValidChar {c : Nat} (h : c.isValidChar) : c < 0x80000000 := by
  rw [Utf8.isValidChar_iff] at h
  omega

namespace Symbol

/-- The standard sequences of the characters of a text. -/
def ofText (text : String) : List Symbol := (text.toList.map Char.toNat).map shortest

variable {s : Symbol} {text : String}

lemma mem_ofText : s ∈ ofText text ↔ ∃ c ∈ text.toList, shortest c.toNat = s := by
  rw [ofText, List.map_map, List.mem_map]
  rfl

lemma isSequence_of_mem_ofText (hs : s ∈ ofText text) : s.IsSequence := by
  obtain ⟨c, -, rfl⟩ := mem_ofText.1 hs
  exact isSequence_shortest (lt_of_isValidChar c.valid)

lemma spell_ofText (text : String) : spell (ofText text) = Utf8.encode text := by
  rw [ofText, spell_shortest, ← encode_ofList, String.ofList_toList]

/-- A text is decoded, whatever follows it. -/
lemma decode_encode_text (text : String) (rest : List UInt8) :
    decode (Utf8.encode text ++ rest) = ofText text ++ decode rest := by
  have hchars : ∀ c ∈ text.toList.map Char.toNat, c < 0x80000000 := by
    intro c hc
    obtain ⟨d, -, rfl⟩ := List.mem_map.1 hc
    exact lt_of_isValidChar d.valid
  have hdecode := decode_encode hchars rest
  rwa [← encode_ofList, String.ofList_toList] at hdecode

end Symbol

/-! ### Answers -/

lemma sift_string (lexicon : Lexicon) (b : Breaks) : (b.sift lexicon .string).2 = true := rfl

/-- The scanner finds a written string literal, whatever follows it. -/
lemma Scan.token_of_denotes {cs : List Nat} {v : Literal} (h : Denotes .string cs v)
    (lexicon : Lexicon) (after : List Symbol) :
    token lexicon (cs.map shortest ++ after) = done cs.length .string := by
  cases h with
  | @string inner content h =>
    rw [List.map_cons, List.map_append, List.cons_append, List.append_assoc]
    show (string (inner.map shortest ++ shortest 0x22 :: after)).shift 1 = _
    rw [string_shortest after h, List.length_cons, List.length_append]
    simp only [shift, done, List.length_singleton]
    rw [Nat.add_comm 1]
  | @rawString inner h =>
    rw [List.map_cons, List.map_cons, List.map_append, List.cons_append, List.cons_append,
      List.append_assoc]
    show ((rawString (inner.map shortest ++ shortest 0x22 :: after)).shift 1).shift 1 = _
    rw [rawString_shortest after h, List.length_cons, List.length_cons, List.length_append]
    simp only [shift, done, List.length_singleton]
    rw [Nat.add_comm 1, Nat.add_comm 1]

/-- A written string literal has the value that it denotes. -/
lemma Lexeme.value_of_denotes {x : Lexeme} {cs : List Nat} {v : Literal}
    (hbytes : x.bytes = cs.flatMap CodePoint.encode) (hcs : ∀ c ∈ cs, c.isValidChar)
    (ht : x.token = .string) (h : Denotes .string cs v) : x.value = v := by
  have hss : ∀ s ∈ cs.map shortest, s.IsSequence := by
    intro s hs
    obtain ⟨c, hc, rfl⟩ := List.mem_map.1 hs
    exact Symbol.isSequence_shortest (lt_of_isValidChar (hcs c hc))
  have hshort : ∀ s ∈ cs.map shortest, s.IsShortest := by
    intro s hs
    obtain ⟨c, -, rfl⟩ := List.mem_map.1 hs
    exact Symbol.isShortest_shortest c
  have hspell := hbytes.trans (Symbol.spell_shortest cs).symm
  have hpoints := Symbol.codePoints_shortest cs
  have hvalid : ∀ c ∈ Symbol.codePoints (cs.map shortest), c.isValidChar := hpoints.symm ▸ hcs
  cases h with
  | string h => exact (value_string_iff hspell hss hvalid ht hpoints h).2 hshort
  | rawString h =>
    refine (value_rawString_iff hspell hss hvalid ht hpoints h ?_).2 hshort
    intro o q rest heq
    exact (List.cons.inj (List.cons.inj heq).2).1.symm

/-- A lexer that reads a string literal answers with this literal, whatever follows it, and its
value is the text that the literal spells. -/
theorem string_literal_round_trip (lexicon : Lexicon) {literal text : List Char}
    (h : IsStringLiteral literal text) (rest : List UInt8) (r : Lexer.Request) :
    let bytes := Utf8.encode (String.ofList literal)
    let answer := (Lexer.ofBytes lexicon (bytes ++ rest)).serve r
    answer.2 = .ok .string ∧ answer.1.current = ⟨.string, 0, bytes, .beginning⟩ ∧
      answer.1.current.value = .string (String.ofList text) := by
  intro bytes answer
  have hvalid : ∀ c ∈ literal.map Char.toNat, c.isValidChar := by
    intro c hc
    obtain ⟨c, -, rfl⟩ := List.mem_map.1 hc
    exact c.valid
  have hbytes : bytes = (literal.map Char.toNat).flatMap CodePoint.encode := encode_ofList literal
  have hscan := Scan.token_of_denotes h.denotes lexicon
  obtain ⟨hok, hcurrent⟩ := Lexer.serve_written (fun c hc => lt_of_isValidChar (hvalid c hc))
    sift_string hscan rest r
  rw [← hbytes] at hok hcurrent
  refine ⟨hok, hcurrent, ?_⟩
  rw [show answer.1.current = _ from hcurrent]
  exact Lexeme.value_of_denotes hbytes hvalid rfl h.denotes

/-- A quote and a line feed by their escapes, a letter behind a backslash and one of two bytes,
before another quote and a malformed byte; and a backslash in a raw string. -/
theorem string_literal_round_trip_escapes :
    let escaped := ['"', '\\', '"', '\\', 'n', '\\', 'a', 'é', '"']
    let verbatim := ['@', '"', '\\', '"']
    let bytes := [0x22, 0x5C, 0x22, 0x5C, 0x6E, 0x5C, 0x61, 0xC3, 0xA9, 0x22]
    let first := (Lexer.ofBytes .standard (bytes ++ [0x22, 0xFF])).serve .any
    let second := (Lexer.ofBytes .standard ([0x40, 0x22, 0x5C, 0x22] ++ [])).serve .significant
    IsStringLiteral escaped ['"', '\n', 'a', 'é'] ∧ IsStringLiteral verbatim ['\\'] ∧
      first.2 = .ok .string ∧ first.1.current = ⟨.string, 0, bytes, .beginning⟩ ∧
      first.1.current.value = .string "\"\naé" ∧
      second.2 = .ok .string ∧ second.1.current.value = .string "\\" := by
  intro escaped verbatim bytes first second
  have hescaped : IsStringLiteral escaped ['"', '\n', 'a', 'é'] :=
    .escaped (.escaped (by decide) (.control (by decide)
      (.escaped (by decide) (.plain (by decide) (by decide) .nil))))
  have hverbatim : IsStringLiteral verbatim ['\\'] :=
    .verbatim (show '"' ∉ ['\\'] by decide)
  obtain ⟨hok, hcurrent, hvalue⟩ :=
    string_literal_round_trip .standard hescaped [0x22, 0xFF] .any
  obtain ⟨hok', -, hvalue'⟩ := string_literal_round_trip .standard hverbatim [] .significant
  have hbytes : Utf8.encode (String.ofList escaped) = bytes := by decide +kernel
  have hbytes' : Utf8.encode (String.ofList verbatim) = [0x40, 0x22, 0x5C, 0x22] := by
    decide +kernel
  rw [hbytes] at hok hcurrent hvalue
  rw [hbytes'] at hok' hvalue'
  exact ⟨hescaped, hverbatim, hok, hcurrent, hvalue, hok', hvalue'⟩

end ScriptGraph
