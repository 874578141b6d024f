import Mathlib.Data.List.Infix
import ScriptGraph.Proofs.Comments
import ScriptGraph.Proofs.Identifiers.Forms
import ScriptGraph.Proofs.Strings

/-!
# Names of identifiers

The scanner takes an identifier by its code points, its name is read from its bytes as standard
text. Every code point without a standard sequence reads as replacement characters, at least two of
them. So names without two replacement characters side by side tell contents apart, and a name with
two of them is the name of other contents as well, or that of its own content is another.
-/

namespace ScriptGraph

open ScriptGraph.Symbol (codePoint codePoints spell chars shortest)
open Utf8 (replacement)

/-- Whether two replacement characters stand side by side in a text. -/
def Garbled (cs : List Char) : Prop := [replacement, replacement] <:+: cs

instance (cs : List Char) : Decidable (Garbled cs) := inferInstanceAs (Decidable (_ <:+: _))

lemma Garbled.append {cs : List Char} (h : Garbled cs) (before after : List Char) :
    Garbled (before ++ cs ++ after) := h.trans (List.infix_append _ _ _)

lemma garbled_replicate (n : Nat) : Garbled (List.replicate (n + 2) replacement) :=
  ⟨[], List.replicate n replacement, rfl⟩

/-! ### Readings of symbols -/

namespace Symbol

variable {s : Symbol} {ss tt : List Symbol} {text : String}

lemma chars_shortest (c : Char) : (shortest c.toNat).chars = [c] := by
  have hvalid : c.toNat.isValidChar := c.valid
  have hread := chars_of_isShortest hvalid (isShortest_shortest c.toNat)
  rwa [Char.ofNat_toNat] at hread

lemma flatMap_chars_ofText (text : String) : (ofText text).flatMap chars = text.toList := by
  simp only [ofText, List.flatMap_map, chars_shortest, List.flatMap_singleton']

/-- A sequence reads as its character, if it is the shortest one of a character, and as two
replacement characters or more otherwise. -/
lemma chars_cases (h : s.IsSequence) :
    (∃ c : Char, s = shortest c.toNat ∧ s.chars = [c]) ∨
      ∃ n, s.chars = List.replicate (n + 2) replacement := by
  cases s with
  | malformed b => exact h.elim
  | codePoint v bs =>
    by_cases hshort : (codePoint v bs).IsShortest
    · by_cases hv : v.isValidChar
      · refine .inl ⟨Char.ofNat v, ?_, chars_of_isShortest hv hshort⟩
        rw [toNat_ofNat_of_isValidChar hv, shortest, CodePoint.encode_of_decode? h hshort]
      · have hascii : ¬v < 0x80 := fun hlt => hv (.inl (Nat.lt_trans hlt (by decide)))
        have hone := CodePoint.encodedLength_eq_one_iff.not.2 hascii
        obtain ⟨hpos, -⟩ := CodePoint.encodedLength_le_of_decode? h
        rw [IsShortest] at hshort
        obtain ⟨n, hn⟩ := Nat.exists_eq_add_of_le (show 2 ≤ bs.length by omega)
        refine .inr ⟨n, ?_⟩
        simp only [chars, char?, hv, false_and, if_false]
        rw [Symbol.bytes, hn, Nat.add_comm]
    · exact .inr (chars_of_not_isShortest h hshort)

/-- What reads as a text without replacement characters side by side is the standard sequence. -/
lemma eq_ofText_of_not_garbled (hss : ∀ s ∈ ss, s.IsSequence) (h : text.toList = ss.flatMap chars)
    (hgarbled : ¬Garbled text.toList) : ss = ofText text := by
  rw [ofText, h]
  rw [h] at hgarbled
  clear h
  induction ss with
  | nil => rfl
  | cons s ss ih =>
    obtain ⟨hs, hrest⟩ := List.forall_mem_cons.1 hss
    rw [List.flatMap_cons] at hgarbled ⊢
    rcases chars_cases hs with ⟨c, hc, hread⟩ | ⟨n, hread⟩
    · have hgarbled' : ¬Garbled (ss.flatMap chars) := fun hmem => by
        have happend := hmem.append s.chars []
        rw [List.append_nil] at happend
        exact hgarbled happend
      rw [hread, List.map_append, List.map_append, ← ih hrest hgarbled', hc]
      rfl
    · rw [hread] at hgarbled
      exact absurd ((garbled_replicate n).append [] _) hgarbled

/-- Two replacement characters side by side are also what one long sequence reads as. -/
lemma exists_other_reading (h : Garbled text.toList) :
    ∃ tt, tt ≠ ofText text ∧ text.toList = tt.flatMap chars ∧
      ∀ s ∈ tt, s = codePoint 0x61 [0xC1, 0xA1] ∨ s ∈ ofText text := by
  obtain ⟨before, after, hsplit⟩ := h
  refine ⟨ofText (.ofList before) ++ codePoint 0x61 [0xC1, 0xA1] :: ofText (.ofList after),
    ?_, ?_, ?_⟩
  · intro hsame
    have hlength := congrArg List.length hsame
    simp only [ofText, ← hsplit, String.toList_ofList, List.length_append, List.length_map,
      List.length_cons, List.length_nil] at hlength
    omega
  · have hread : (codePoint 0x61 [0xC1, 0xA1]).chars = [replacement, replacement] := rfl
    rw [List.flatMap_append, List.flatMap_cons, flatMap_chars_ofText, flatMap_chars_ofText,
      String.toList_ofList, String.toList_ofList, hread, ← List.append_assoc, hsplit]
  · intro s hs
    simp only [mem_ofText, ← hsplit, List.mem_append, List.mem_cons, String.toList_ofList] at hs ⊢
    rcases hs with ⟨c, hc, rfl⟩ | rfl | ⟨c, hc, rfl⟩
    · exact .inr ⟨c, .inl (.inl hc), rfl⟩
    · exact .inl rfl
    · exact .inr ⟨c, .inr hc, rfl⟩

/-- Sequences are told apart by what they spell. -/
lemma spell_inj (hss : ∀ s ∈ ss, s.IsSequence) (htt : ∀ s ∈ tt, s.IsSequence) :
    spell ss = spell tt ↔ ss = tt := by
  constructor
  · intro h
    rw [← decode_spell hss, h, decode_spell htt]
  · exact congrArg spell

end Symbol

/-! ### Contents and names -/

namespace Lexeme

/-- The symbols of an identifier without its backticks. The closing one may be missing, and a word
has none. -/
def contentSymbols (bytes : List UInt8) : List Symbol :=
  match Symbol.decode bytes with
  | [] => []
  | s :: ss =>
    if s.isValue 0x60 then
      if ss.getLast?.any (Symbol.isValue 0x60) then ss.dropLast else ss
    else s :: ss

/-- The bytes of an identifier without its backticks. -/
def content (x : Lexeme) : List UInt8 := spell (contentSymbols x.bytes)

variable {x y : Lexeme} {ss tt : List Symbol}

/-- The name of an identifier is what is left of it without backticks of a single byte. -/
lemma name_of_ident (ht : x.token = .ident) :
    x.name = Utf8.decode (if x.bytes.head? = some 0x60 then strip 1 0x60 x.bytes else x.bytes) := by
  split_ifs with h
  · rw [name, value_quotedIdent ht h]
  · rw [name, value_ident ht h]

/-- An identifier whose content consists of the given symbols. Unless its name has replacement
characters side by side, it is what the content reads as. -/
structure Named (x : Lexeme) (ss : List Symbol) : Prop where
  sequences : ∀ s ∈ ss, s.IsSequence
  isContent : ∀ s ∈ ss, Scan.IsContent s
  content : x.content = spell ss
  name : x.name.toList = ss.flatMap chars ∨ Garbled x.name.toList

lemma contentSymbols_of_identifies (htt : ∀ s ∈ tt, s.IsSequence) (h : Scan.Identifies tt ss) :
    contentSymbols (spell tt) = ss := by
  rw [contentSymbols, Symbol.decode_spell htt]
  cases h with
  | word hv h =>
    obtain ⟨hfirst, -⟩ := List.forall_mem_cons.1 h
    simp only [hfirst.isValue, Bool.false_eq_true, if_false]
  | opened h =>
    have hlast : ss.getLast?.any (Symbol.isValue 0x60) = false := by
      cases hs : ss.getLast? with
      | none => rfl
      | some s => exact (h s (List.mem_of_getLast? hs)).isValue
    simp [Symbol.isValue, Symbol.value?, hlast]
  | closed h => simp [Symbol.isValue, Symbol.value?]

/-- A symbol that reads as replacement characters garbles what it stands in. -/
lemma garbled_of_not_isShortest {s : Symbol} (hs : s.IsSequence) (hshort : ¬s.IsShortest)
    (before after : List Char) : Garbled (before ++ s.chars ++ after) := by
  cases s with
  | malformed b => exact hs.elim
  | codePoint v bs =>
    obtain ⟨n, hn⟩ := Symbol.chars_of_not_isShortest hs hshort
    rw [hn]
    exact (garbled_replicate n).append before after

/-- The name of an identifier that starts with a backtick of a single byte. -/
lemma name_of_shortest {os : List UInt8} (ht : x.token = .ident)
    (hbytes : x.bytes = spell (codePoint 0x60 os :: tt)) (ho : (codePoint 0x60 os).IsSequence)
    (hshort : (codePoint 0x60 os).IsShortest) :
    x.bytes.drop 1 = [] ++ spell tt ∧
      x.name = Utf8.decode (strip 1 (UInt8.ofNat 0x60) x.bytes) := by
  obtain ⟨tail, hdrop, -, hlength, hhead⟩ := opening hbytes ho (by decide)
  obtain rfl := List.length_eq_zero_iff.1 (hlength.2 hshort)
  have hfirst : x.bytes.head? = some 0x60 := (hhead 0x60 (by decide)).2 ⟨rfl, hshort⟩
  rw [name_of_ident ht, if_pos hfirst]
  exact ⟨hdrop, rfl⟩

/-- An identifier that does not start with a backtick of a single byte keeps all its symbols in its
name. -/
lemma name_of_not_shortest {v : Nat} {bs : List UInt8} (ht : x.token = .ident)
    (hbytes : x.bytes = spell (codePoint v bs :: tt))
    (htt : ∀ s ∈ codePoint v bs :: tt, s.IsSequence) (hv : v < 0x80)
    (h : v ≠ 0x60 ∨ ¬(codePoint v bs).IsShortest) :
    x.name.toList = (codePoint v bs :: tt).flatMap chars := by
  obtain ⟨-, -, -, -, hhead⟩ := opening hbytes (htt _ List.mem_cons_self) hv
  have hfirst : x.bytes.head? ≠ some 0x60 := by
    intro heq
    obtain ⟨hsame, hshort⟩ := (hhead 0x60 (by decide)).1 heq
    rcases h with hne | hlong
    · exact hne hsame.symm
    · exact hlong hshort
  rw [name_of_ident ht, if_neg hfirst, Utf8.decode, String.toList_ofList, hbytes,
    Symbol.decodeFrom_spell htt]

/-- An opening backtick of several bytes stays in the name and garbles it. -/
lemma garbled_of_long_opening {os : List UInt8} (ht : x.token = .ident)
    (hbytes : x.bytes = spell (codePoint 0x60 os :: tt))
    (htt : ∀ s ∈ codePoint 0x60 os :: tt, s.IsSequence) (hlong : ¬(codePoint 0x60 os).IsShortest) :
    Garbled x.name.toList := by
  rw [name_of_not_shortest ht hbytes htt (by decide) (.inr hlong), List.flatMap_cons]
  exact garbled_of_not_isShortest (htt _ List.mem_cons_self) hlong [] _

section

variable {os : List UInt8} (ht : x.token = .ident) (ho : (codePoint 0x60 os).IsSequence)
  (hshort : (codePoint 0x60 os).IsShortest) (hss : ∀ s ∈ ss, s.IsSequence)
include ht ho hshort hss

/-- Without a closing backtick, the name is what the content reads as. -/
lemma name_of_opened (hbytes : x.bytes = spell (codePoint 0x60 os :: ss))
    (h : ∀ s ∈ ss, Scan.IsContent s) : x.name.toList = ss.flatMap chars := by
  obtain ⟨hdrop, hname⟩ := name_of_shortest ht hbytes ho hshort
  have hopen : 0x60 ∉ codePoints ss := by
    intro hmem
    obtain ⟨s, hs, hvalue⟩ := List.mem_filterMap.1 hmem
    obtain ⟨v, hv, hne, -⟩ := h s hs
    exact hne (Option.some.inj (hv.symm.trans hvalue))
  rw [hname, Utf8.decode, String.toList_ofList,
    decodeFrom_strip_open hdrop (by simp) hss (by decide) hopen]
  rfl

/-- A closing backtick is left out of the name if it has a single byte, and garbles it otherwise. -/
lemma name_of_closed {qs : List UInt8} (hq : (codePoint 0x60 qs).IsSequence)
    (hbytes : x.bytes = spell (codePoint 0x60 os :: (ss ++ [codePoint 0x60 qs]))) :
    ((codePoint 0x60 qs).IsShortest → x.name.toList = ss.flatMap chars) ∧
      (¬(codePoint 0x60 qs).IsShortest → Garbled x.name.toList) := by
  obtain ⟨hdrop, hname⟩ := name_of_shortest ht hbytes ho hshort
  obtain ⟨rest, hstrip, hrest⟩ := strip_closed hdrop (by simp) hss hq (by decide)
  rw [hname, Utf8.decode, String.toList_ofList, hstrip, List.nil_append,
    Symbol.decodeFrom_spell_append hss]
  rcases hrest with ⟨hclose, rfl⟩ | ⟨hlong, rfl⟩
  · exact ⟨fun _ => List.append_nil _, fun hlong => absurd hclose hlong⟩
  · refine ⟨fun hclose => absurd hclose hlong, fun _ => ?_⟩
    have hclose := Symbol.decodeFrom_spell (List.forall_mem_singleton.2 hq)
    have hspell : spell [codePoint 0x60 rest] = rest := by simp [Symbol.bytes]
    rw [hspell, List.flatMap_singleton] at hclose
    have hgarbled := garbled_of_not_isShortest hq hlong (ss.flatMap chars) []
    rwa [List.append_nil, ← hclose] at hgarbled

end

/-- An identifier has the content of its form. -/
lemma named_of_identifies (ht : x.token = .ident) (hbytes : x.bytes = spell tt)
    (htt : ∀ s ∈ tt, s.IsSequence) (h : Scan.Identifies tt ss) : x.Named ss := by
  have hcontent : x.content = spell ss := by
    rw [content, hbytes, contentSymbols_of_identifies htt h]
  cases h with
  | @word v bs rest hclass h =>
    obtain ⟨⟨w, hw, hne, -⟩, -⟩ := List.forall_mem_cons.1 h
    obtain rfl := Option.some.inj hw
    have hv : v < 0x80 := lt_of_classOf (by simp [hclass])
    exact ⟨htt, h, hcontent, .inl (name_of_not_shortest ht hbytes htt hv (.inl hne))⟩
  | @opened os content h =>
    obtain ⟨ho, hss⟩ := List.forall_mem_cons.1 htt
    refine ⟨hss, h, hcontent, ?_⟩
    by_cases hshort : (codePoint 0x60 os).IsShortest
    · exact .inl (name_of_opened ht ho hshort hss hbytes h)
    · exact .inr (garbled_of_long_opening ht hbytes htt hshort)
  | @closed os qs content h =>
    obtain ⟨ho, hrest⟩ := List.forall_mem_cons.1 htt
    obtain ⟨hss, hq⟩ := List.forall_mem_append.1 hrest
    refine ⟨hss, h, hcontent, ?_⟩
    by_cases hshort : (codePoint 0x60 os).IsShortest
    · obtain ⟨hname, hgarbled⟩ :=
        name_of_closed ht ho hshort hss (List.forall_mem_singleton.1 hq) hbytes
      by_cases hclose : (codePoint 0x60 qs).IsShortest
      · exact .inl (hname hclose)
      · exact .inr (hgarbled hclose)
    · exact .inr (garbled_of_long_opening ht hbytes htt hshort)

/-- Names without replacement characters side by side are equal if the contents are. -/
lemma Named.name_eq_iff (hx : x.Named ss) (hy : y.Named tt) (hx' : ¬Garbled x.name.toList)
    (hy' : ¬Garbled y.name.toList) : x.name = y.name ↔ x.content = y.content := by
  have hread := hx.name.resolve_right hx'
  have hread' := hy.name.resolve_right hy'
  rw [hx.content, hy.content, Symbol.spell_inj hx.sequences hy.sequences]
  constructor
  · intro h
    rw [Symbol.eq_ofText_of_not_garbled hx.sequences hread hx', h,
      ← Symbol.eq_ofText_of_not_garbled hy.sequences hread' hy']
  · intro h
    rw [← String.toList_inj, hread, hread', h]

/-- What a symbol of a content reads as could stand there itself. -/
lemma isContent_shortest {s : Symbol} (hs : s.IsSequence) (h : Scan.IsContent s) :
    ∀ c ∈ s.chars, Scan.IsContent (shortest c.toNat) := by
  intro c hc
  rcases Symbol.chars_cases hs with ⟨d, rfl, hread⟩ | ⟨n, hread⟩
  · rw [hread] at hc
    obtain rfl := List.mem_singleton.1 hc
    exact h
  · rw [hread] at hc
    obtain rfl := List.eq_of_mem_replicate hc
    exact ⟨0xFFFD, rfl, by decide, by decide, by decide⟩

/-- What the content of an identifier reads as could be a content itself. -/
lemma Named.isContent_of_mem_ofText (hx : x.Named ss) (hname : x.name.toList = ss.flatMap chars) :
    ∀ s ∈ Symbol.ofText x.name, Scan.IsContent s := by
  intro s hs
  obtain ⟨c, hc, rfl⟩ := Symbol.mem_ofText.1 hs
  rw [hname] at hc
  obtain ⟨u, hu, hc⟩ := List.mem_flatMap.1 hc
  exact isContent_shortest (hx.sequences u hu) (hx.isContent u hu) c hc

/-- If the name of an identifier has replacement characters side by side, there are symbols whose
comparison with its content goes wrong: other ones that read as its name, or its own if these do
not. -/
lemma Named.exists_rival (hx : x.Named ss) (h : Garbled x.name.toList) :
    ∃ tt, (∀ s ∈ tt, s.IsSequence) ∧ (∀ s ∈ tt, Scan.IsContent s) ∧
      ¬(x.name.toList = tt.flatMap chars ↔ ss = tt) := by
  by_cases hname : x.name.toList = ss.flatMap chars
  · have hcontent := hx.isContent_of_mem_ofText hname
    by_cases hss : ss = Symbol.ofText x.name
    · obtain ⟨tt, hne, hread, htt⟩ := Symbol.exists_other_reading h
      refine ⟨tt, ?_, ?_, fun hiff => hne ((hiff.1 hread).symm.trans hss)⟩
      · intro s hs
        rcases htt s hs with rfl | hs
        · rfl
        · exact Symbol.isSequence_of_mem_ofText hs
      · intro s hs
        rcases htt s hs with rfl | hs
        · exact ⟨0x61, rfl, by decide, by decide, by decide⟩
        · exact hcontent s hs
    · have hread := (Symbol.flatMap_chars_ofText x.name).symm
      exact ⟨_, fun s => Symbol.isSequence_of_mem_ofText, hcontent, fun hiff => hss (hiff.1 hread)⟩
  · exact ⟨ss, hx.sequences, hx.isContent, fun hiff => hname (hiff.2 rfl)⟩

end Lexeme

/-! ### Identifiers of a text -/

/-- The identifiers of a source text, if it is lexed without an error. -/
def identifiers (source : List UInt8) : List Lexeme :=
  match (Lexer.ofBytes .standard source).stream with
  | ⟨xs, .finished _⟩ => xs.filter fun x => x.token = .ident
  | ⟨_, .broken _ _⟩ => []

lemma mem_identifiers {source : List UInt8} {x : Lexeme} :
    x ∈ identifiers source ↔
      (∃ eof, (Lexer.ofBytes .standard source).stream.ending = .finished eof) ∧
        x ∈ (Lexer.ofBytes .standard source).stream.lexemes ∧ x.token = .ident := by
  rw [identifiers]
  split <;> rename_i hstream <;> simp [hstream]

namespace Lexer

variable {l : Lexer} {x : Lexeme} {window rest : List UInt8} {offset : Nat} {cs : List Nat}

/-- An identifier is never dropped. -/
lemma mem_sieve {lexicon : Lexicon} {b : Breaks} {xs : List Lexeme} (ht : x.token = .ident) :
    x ∈ sieve lexicon b xs ↔ x ∈ xs := by
  induction xs generalizing b with
  | nil => rfl
  | cons y ys ih =>
    rw [sieve, List.mem_cons]
    rcases hsift : b.sift lexicon y.token with ⟨b', _ | _⟩
    · have hne : x ≠ y := by
        rintro rfl
        rw [ht] at hsift
        cases hsift
      simp only [ih, hne, false_or]
    · simp only [List.mem_cons, ih]

/-- A raw identifier is found by a scan. -/
lemma exists_scan_of_mem (hat : l.cursor.At window offset cs rest)
    (hlexicon : l.lexicon = .standard) (hx : x ∈ l.rawStream.lexemes) (ht : x.token = .ident) :
    ∃ symbols n, Scan.token .standard symbols = .done n .ident ∧
      x.bytes = spell (symbols.take n) ∧ ∀ s ∈ symbols.take n, s.IsSequence := by
  induction hm : l.remaining using Nat.strongRecOn generalizing l cs rest with
  | ind m ih =>
    rcases hraw : l.nextRaw with ⟨l', e | t⟩
    · rw [rawStream_of_error hraw] at hx
      cases hx
    rw [rawStream_of_ok hraw] at hx
    split_ifs at hx with heof
    · cases hx
    rcases List.mem_cons.1 hx with rfl | hx
    · have hanswer : l.nextRaw.2 = .ok t := by rw [hraw]
      have hscan := outcome_of_nextRaw hanswer
      obtain rfl := (token_nextRaw hraw).symm.trans ht
      obtain ⟨-, rfl, hbytes, hseq, -⟩ := sequences_nextRaw hanswer hat.symbols
      rw [hraw, hlexicon] at hbytes
      rw [hlexicon] at hscan hseq
      refine ⟨_, _, ?_, hbytes, hseq⟩
      rw [Scan.done, ← hscan]
    · obtain ⟨ds, rest', hat', -⟩ := at_nextRaw hat
      rw [hraw] at hat'
      exact ih _ (hm ▸ remaining_nextRaw hraw (.inl heof)) hat'
        ((nextRaw_fst hraw).1.trans hlexicon) hx rfl

end Lexer

/-- The identifiers of a text have contents, and are the same identifiers on their own. -/
lemma exists_named {source : List UInt8} {x : Lexeme} (hx : x ∈ identifiers source) :
    ∃ uu ss, x.Named ss ∧ x.bytes = spell uu ∧ (∀ s ∈ uu, s.IsSequence) ∧
      Scan.token .standard uu = .done uu.length .ident := by
  obtain ⟨-, hx, ht⟩ := mem_identifiers.1 hx
  rw [Lexer.stream_eq_sieve, Lexer.mem_sieve ht] at hx
  obtain ⟨symbols, n, hscan, hbytes, hseq⟩ :=
    Lexer.exists_scan_of_mem (.ofBytes source) rfl hx ht
  have hwithin : n ≤ symbols.length := by
    have hwithin := (Scan.sound_token .standard symbols).within
    rwa [hscan] at hwithin
  obtain ⟨⟨ss, hform⟩, hown⟩ := Scan.identifies_token hscan
  refine ⟨_, ss, Lexeme.named_of_identifies ht hbytes hseq hform, hbytes, hseq, ?_⟩
  rwa [List.length_take_of_le hwithin]

/-- An identifier of the given content, in backticks. -/
def quoted (content : List Symbol) : List Symbol :=
  codePoint 0x60 [0x60] :: (content ++ [codePoint 0x60 [0x60]])

section

variable {tt : List Symbol} (htt : ∀ s ∈ tt, s.IsSequence)
include htt

lemma isSequence_quoted : ∀ s ∈ quoted tt, s.IsSequence := by
  have htick : (codePoint 0x60 [0x60]).IsSequence := rfl
  exact List.forall_mem_cons.2
    ⟨htick, List.forall_mem_append.2 ⟨htt, List.forall_mem_singleton.2 htick⟩⟩

/-- In backticks of a single byte a content is a name as it reads. -/
lemma Lexeme.toList_name_quoted {y : Lexeme} (ht : y.token = .ident)
    (hbytes : y.bytes = spell (quoted tt)) : y.name.toList = tt.flatMap chars := by
  have htick : (codePoint 0x60 [0x60]).IsSequence ∧ (codePoint 0x60 [0x60]).IsShortest := ⟨rfl, rfl⟩
  exact (name_of_closed ht htick.1 htick.2 htt htick.1 hbytes).1 htick.2

variable (hcontent : ∀ s ∈ tt, Scan.IsContent s)
include hcontent

omit htt in
lemma token_quoted (rest : List Symbol) :
    Scan.token .standard (quoted tt ++ rest) = .done (quoted tt).length .ident := by
  have hopen (symbols : List Symbol) :
      Scan.token .standard (codePoint 0x60 [0x60] :: symbols) =
        (Scan.quotedIdent symbols).shift 1 := rfl
  have hclose : Scan.quotedIdent (codePoint 0x60 [0x60] :: rest) = .done 1 .ident := rfl
  rw [quoted, List.cons_append, hopen, List.append_assoc, Scan.quotedIdent_append hcontent,
    List.singleton_append, hclose, List.length_cons, List.length_append]
  exact congrArg (Scan.mk · _) (Nat.add_comm _ _)

/-- A quoted identifier and any other one, on a line each, are identifiers of the text. -/
lemma exists_mem_identifiers {uu : List Symbol} (huu : ∀ s ∈ uu, s.IsSequence)
    (hscan : Scan.token .standard uu = .done uu.length .ident) :
    (∃ x ∈ identifiers (spell (quoted tt) ++ 0x0A :: spell uu), x.bytes = spell uu) ∧
      ∃ y ∈ identifiers (spell (quoted tt) ++ 0x0A :: spell uu),
        y.bytes = spell (quoted tt) := by
  let ps : List Piece :=
    [⟨quoted tt, .ident⟩, ⟨[codePoint 0x0A [0x0A]], .breakLine⟩, ⟨uu, .ident⟩]
  have hbreak : Scan.IsLineFeed (codePoint 0x0A [0x0A]) := ⟨rfl, rfl⟩
  have hne : uu ≠ [] := by
    rintro rfl
    cases hscan
  have hdivides : Piece.Divides .standard ps := by
    refine .cons (List.cons_ne_nil _ _) nofun (token_quoted hcontent _) ?_
    refine .cons (List.cons_ne_nil _ _) nofun (Piece.token_lineFeed hbreak _) ?_
    refine .cons hne nofun ?_ .nil
    rw [Piece.spelling_nil, List.append_nil]
    exact hscan
  have hspelling : Piece.spelling ps = quoted tt ++ codePoint 0x0A [0x0A] :: uu := by
    simp [ps]
  have hsource : spell (quoted tt) ++ 0x0A :: spell uu = spell (Piece.spelling ps) := by
    rw [hspelling, Symbol.spell_append, Symbol.spell_cons]
    rfl
  have hsequences : ∀ s ∈ Piece.spelling ps, s.IsSequence := by
    rw [hspelling, List.forall_mem_append, List.forall_mem_cons]
    exact ⟨isSequence_quoted htt, hbreak.2, huu⟩
  rw [hsource]
  have hrest : (Lexer.ofBytes .standard (spell (Piece.spelling ps))).cursor.rest =
      Piece.spelling ps := by
    have hcursor := Cursor.ofBytes_eq (spell (Piece.spelling ps))
    rw [Lexer.ofBytes, Lexer.ofCursor, hcursor]
    exact Symbol.decode_spell hsequences
  obtain ⟨hlexemes, place, hending⟩ :=
    Piece.Divides.rawStream (l := .ofBytes .standard _) hdivides hrest
  have hmem {x : Lexeme} (ht : x.token = .ident)
      (hx : x ∈ Piece.lexemes (Lexer.ofBytes .standard (spell (Piece.spelling ps))).cursor ps) :
      x ∈ identifiers (spell (Piece.spelling ps)) := by
    rw [mem_identifiers, Lexer.stream_eq_sieve, Lexer.mem_sieve ht, hlexemes]
    exact ⟨⟨_, hending⟩, hx, ht⟩
  constructor
  · refine ⟨_, hmem ?_ (List.mem_cons_of_mem _ (List.mem_cons_of_mem _ List.mem_cons_self)), ?_⟩
    · rfl
    · rfl
  · refine ⟨_, hmem ?_ List.mem_cons_self, ?_⟩
    · rfl
    · rfl

end

/-- Names tell identifiers of a text apart as their contents do, unless replacement characters stand
side by side in one of them. Such an identifier can be put into a text with another one from which
its name tells it apart though their contents are the same, or the other way round. -/
theorem identifiers_named_apart (source : List UInt8) (x : Lexeme) (hx : x ∈ identifiers source) :
    (¬Garbled x.name.toList → ∀ y ∈ identifiers source, ¬Garbled y.name.toList →
      (x.name = y.name ↔ x.content = y.content)) ∧
    (Garbled x.name.toList → ∃ line, ∃ x' ∈ identifiers (line ++ 0x0A :: x.bytes),
      ∃ y ∈ identifiers (line ++ 0x0A :: x.bytes), x'.bytes = x.bytes ∧ y.bytes = line ∧
        ¬(x'.name = y.name ↔ x'.content = y.content)) := by
  obtain ⟨uu, ss, hnamed, hbytes, huu, hscan⟩ := exists_named hx
  constructor
  · intro hgarbled y hy hgarbled'
    obtain ⟨-, tt, hnamed', -⟩ := exists_named hy
    exact hnamed.name_eq_iff hnamed' hgarbled hgarbled'
  · intro hgarbled
    obtain ⟨tt, htt, hcontent, hrival⟩ := hnamed.exists_rival hgarbled
    obtain ⟨⟨x', hx', hbytes'⟩, y, hy, hline⟩ := exists_mem_identifiers htt hcontent huu hscan
    rw [← hbytes] at hx' hy hbytes'
    refine ⟨_, x', hx', y, hy, hbytes', hline, ?_⟩
    have ht := (mem_identifiers.1 hx).2.2
    have ht' := (mem_identifiers.1 hx').2.2
    have hty := (mem_identifiers.1 hy).2.2
    have hname : x'.name = x.name := by
      rw [Lexeme.name_of_ident ht', Lexeme.name_of_ident ht, hbytes']
    have hsame : x'.content = spell ss := by
      rw [Lexeme.content, hbytes', ← hnamed.content]
      rfl
    have hother := Lexeme.named_of_identifies hty hline (isSequence_quoted htt) (.closed hcontent)
    rw [hname, hsame, hother.content, Symbol.spell_inj hnamed.sequences htt, ← String.toList_inj,
      Lexeme.toList_name_quoted htt hty hline]
    exact hrival

/-- One identifier is spelt with a surrogate and the other one with the three replacement characters
as which that reads. The text declares a variable by the first, and has a graph. -/
theorem identifiers_named_apart_surrogate :
    let source := Utf8.encode "let `" ++ [0xED, 0xA0, 0x80] ++
      Utf8.encode "` = 1\n`\uFFFD\uFFFD\uFFFD`"
    let x : Lexeme := ⟨.ident, 4, [0x60, 0xED, 0xA0, 0x80, 0x60], ⟨1, 5⟩⟩
    let y : Lexeme := ⟨.ident, 14, Utf8.encode "`\uFFFD\uFFFD\uFFFD`", ⟨2, 1⟩⟩
    (∃ g, parse .standard source = .ok g) ∧ identifiers source = [x, y] ∧
      x.name = y.name ∧ x.content ≠ y.content ∧
      ∃ line, ∃ x' ∈ identifiers (line ++ 0x0A :: x.bytes),
        ∃ y' ∈ identifiers (line ++ 0x0A :: x.bytes), x'.bytes = x.bytes ∧ y'.bytes = line ∧
          ¬(x'.name = y'.name ↔ x'.content = y'.content) := by
  intro source x y
  have hsome : (parse .standard source).toOption.isSome = true := by decide +kernel
  obtain ⟨g, hg⟩ := Option.isSome_iff_exists.1 hsome
  rw [toOption_eq_some] at hg
  have hidentifiers : identifiers source = [x, y] := by decide +kernel
  have hx : x ∈ identifiers source := by
    rw [hidentifiers]
    exact List.mem_cons_self
  have hname : x.name = y.name := by decide +kernel
  have hcontent : x.content ≠ y.content := by decide +kernel
  have hgarbled : Garbled x.name.toList := by decide +kernel
  obtain ⟨-, hrival⟩ := identifiers_named_apart source x hx
  exact ⟨⟨g, hg⟩, hidentifiers, hname, hcontent, hrival hgarbled⟩

end ScriptGraph
