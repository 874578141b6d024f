import ScriptGraph.Proofs.Comments
import ScriptGraph.Proofs.Strings

/-!
# Words and operators go as far as they can

A word is the longest run of code points that can stand in one, an operator the longest run of those
that start operators. A keyword for a comment, which is the word or stands at the start of the
operator, makes a comment of the rest of the line instead. These rules say what the next token is,
and there is just one such token, provided that the line can be decoded.
-/

namespace ScriptGraph

open CodePoint (Decodes decode?)
open ScriptGraph.Symbol (codePoint codePoints decode shortest spell)

/-! ### Rules -/

/-- Whether some bytes are the keyword of a token. -/
def Lexicon.Names (l : Lexicon) (bytes : List UInt8) (t : Token) : Prop :=
  ∃ text, bytes = Utf8.encode text ∧ l.keyword? text = some t

/-- Whether some bytes have a token as their keyword, or have no keyword and are of its kind. -/
def Lexicon.Calls (l : Lexicon) (bytes : List UInt8) (kind t : Token) : Prop :=
  l.Names bytes t ∨ (∀ u, ¬l.Names bytes u) ∧ t = kind

/-- Whether a text starts with a run of code points that satisfy a condition, and goes on with no
other such code point. -/
def LongestRun (p : Nat → Prop) (text run : List UInt8) : Prop :=
  ∃ cs rest, text = run ++ rest ∧ Decodes text cs rest ∧ (∀ c ∈ cs, p c) ∧
    ∀ c n, decode? rest = some (c, n) → ¬p c

/-- Whether a text is decoded up to its first line feed and this line feed, or up to its end. -/
def ReadableLine (text : List UInt8) : Prop :=
  ∃ cs rest, Decodes text cs rest ∧ (rest = [] ∨ 0x0A ∈ cs)

/-- Whether a code point can stand in a word. -/
def IsWordPart (c : Nat) : Prop :=
  (classOf c = .ident ∨ classOf c = .number) ∧ c ≠ 0x60 ∧ c ≠ 0x27

/-- Whether a code point can stand in an operator. -/
def IsOperatorPart (c : Nat) : Prop := (classOf c).isOperator = true

/-- Which token a text starts with, if its first code point starts a word or an operator, and the
bytes of the token. -/
inductive Munches (lexicon : Lexicon) (text : List UInt8) : Token → List UInt8 → Prop
  | word {v n : Nat} {w : List UInt8} {t : Token} (hfirst : decode? text = some (v, n))
      (hv : classOf v = .ident ∧ v ≠ 0x60) (hw : LongestRun IsWordPart text w)
      (ht : lexicon.Calls w .ident t) (hcomment : t ≠ .comment) : Munches lexicon text t w
  | wordComment {v n : Nat} {w line : List UInt8} (hfirst : decode? text = some (v, n))
      (hv : classOf v = .ident ∧ v ≠ 0x60) (hw : LongestRun IsWordPart text w)
      (hcomment : lexicon.Names w .comment) (hline : LongestRun (· ≠ 0x0A) text line) :
      Munches lexicon text .comment line
  | operator {v n : Nat} {w : List UInt8} {t : Token} (hfirst : decode? text = some (v, n))
      (hv : IsOperatorPart v) (hw : LongestRun IsOperatorPart text w)
      (hcomment : ∀ mark, mark ≠ [] → mark <+: w → ¬lexicon.Names mark .comment)
      (ht : lexicon.Calls w (classOf v) t) : Munches lexicon text t w
  | operatorComment {v n : Nat} {w mark line : List UInt8} (hfirst : decode? text = some (v, n))
      (hv : IsOperatorPart v) (hw : LongestRun IsOperatorPart text w) (hne : mark ≠ [])
      (hmark : mark <+: w) (hcomment : lexicon.Names mark .comment)
      (hline : LongestRun (· ≠ 0x0A) text line) : Munches lexicon text .comment line

/-! ### Keywords by their bytes -/

lemma Symbol.text?_ofText (text : String) : text? (ofText text) = some text := by
  rw [text?_eq_some, ofText, List.map_map, List.forall₂_map_left_iff]
  refine List.forall₂_same.2 fun c _ => ?_
  have hvalid : c.toNat.isValidChar := c.valid
  rw [Function.comp_apply, shortest, char?, if_pos ⟨hvalid, CodePoint.length_encode _⟩,
    Char.ofNat_toNat]

variable {lexicon : Lexicon} {text : List UInt8}

lemma Lexicon.Names.keyword? {bytes : List UInt8} {t : Token} (h : lexicon.Names bytes t) :
    Scan.keyword? lexicon (decode bytes) = some t := by
  obtain ⟨text, rfl, ht⟩ := h
  have hdecode := Symbol.decode_encode_text text []
  rw [List.append_nil, Symbol.decode_nil, List.append_nil] at hdecode
  rw [Scan.keyword?, hdecode, Symbol.text?_ofText]
  exact ht

lemma Lexicon.Names.unique {bytes : List UInt8} {t u : Token} (h : lexicon.Names bytes t)
    (h' : lexicon.Names bytes u) : t = u :=
  Option.some.inj (h.keyword?.symm.trans h'.keyword?)

lemma Lexicon.Calls.unique {bytes : List UInt8} {kind t u : Token}
    (h : lexicon.Calls bytes kind t) (h' : lexicon.Calls bytes kind u) : t = u := by
  rcases h with h | ⟨hnone, rfl⟩ <;> rcases h' with h' | ⟨hnone', rfl⟩
  · exact h.unique h'
  · exact absurd h (hnone' t)
  · exact absurd h' (hnone u)
  · rfl

namespace Scan

variable {ss symbols : List Symbol} {t : Token}

/-- The keyword of sequences is that of their bytes. -/
lemma keyword?_eq_some_iff (hss : ∀ s ∈ ss, s.IsSequence) :
    keyword? lexicon ss = some t ↔ lexicon.Names (spell ss) t := by
  constructor
  · intro h
    obtain ⟨text, htext, ht⟩ := Option.bind_eq_some_iff.1 h
    exact ⟨text, Symbol.spell_of_text? hss htext, ht⟩
  · intro h
    rw [← Symbol.decode_spell hss]
    exact h.keyword?

/-- So is the token that is looked up by them. -/
lemma calls_keyword? (hss : ∀ s ∈ ss, s.IsSequence) (kind : Token) :
    lexicon.Calls (spell ss) kind ((keyword? lexicon ss).getD kind) := by
  cases h : keyword? lexicon ss with
  | some t => exact .inl ((keyword?_eq_some_iff hss).1 h)
  | none =>
    refine .inr ⟨fun u hu => ?_, rfl⟩
    rw [(keyword?_eq_some_iff hss).2 hu] at h
    cases h

/-- A keyword at the start of the bytes of some sequences is that of the first of them. -/
lemma exists_take_of_prefix (hss : ∀ s ∈ ss, s.IsSequence) {mark : List UInt8}
    (hmark : mark <+: spell ss) (h : lexicon.Names mark t) :
    ∃ n, mark = spell (ss.take n) ∧ n ≤ ss.length ∧ keyword? lexicon (ss.take n) = some t := by
  obtain ⟨after, hafter⟩ := hmark
  obtain ⟨text, rfl, ht⟩ := h
  have hsplit : Symbol.ofText text ++ decode after = ss := by
    rw [← Symbol.decode_encode_text, hafter, Symbol.decode_spell hss]
  have htake : ss.take (Symbol.ofText text).length = Symbol.ofText text := by
    rw [← hsplit, List.take_left]
  refine ⟨(Symbol.ofText text).length, ?_, ?_, ?_⟩
  · rw [htake, Symbol.spell_ofText]
  · rw [← hsplit, List.length_append]
    exact Nat.le_add_right _ _
  · rw [htake, keyword?, Symbol.text?_ofText]
    exact ht

/-- No comment is marked at the start of an operator exactly if no start of its bytes is a keyword
for one. -/
lemma commentMark?_eq_none_iff (hss : ∀ s ∈ ss, s.IsSequence) :
    commentMark? lexicon ss = none ↔
      ∀ mark, mark ≠ [] → mark <+: spell ss → ¬lexicon.Names mark .comment := by
  constructor
  · intro hnone mark hne hmark h
    obtain ⟨n, rfl, hn, hkeyword⟩ := exists_take_of_prefix hss hmark h
    have hpos : 0 < n := by
      rw [Nat.pos_iff_ne_zero]
      rintro rfl
      exact hne rfl
    exact commentMark?_ne_none_of_take hpos hn hkeyword hnone
  · intro h
    cases hmark : commentMark? lexicon ss with
    | none => rfl
    | some n =>
      obtain ⟨hkeyword, hpos, hn, -⟩ := commentMark?_eq_some.1 hmark
      have hseq : ∀ s ∈ ss.take n, s.IsSequence := fun s hs => hss s (List.mem_of_mem_take hs)
      have hnames := (keyword?_eq_some_iff hseq).1 hkeyword
      refine absurd hnames (h _ ?_ ?_)
      · intro hnil
        have hdecode := Symbol.decode_spell hseq
        rw [hnil, Symbol.decode_nil] at hdecode
        have hlength := List.length_take_of_le hn
        rw [← hdecode, List.length_nil] at hlength
        omega
      · have hsplit := Symbol.spell_append (ss.take n) (ss.drop n)
        rw [List.take_append_drop] at hsplit
        exact ⟨_, hsplit.symm⟩

end Scan

/-! ### Runs by their bytes -/

/-- A text has one longest run. -/
lemma LongestRun.unique {p : Nat → Prop} {run run' : List UInt8} (h : LongestRun p text run)
    (h' : LongestRun p text run') : run = run' := by
  obtain ⟨cs, rest, htext, hcs, hall, hstop⟩ := h
  obtain ⟨cs', rest', htext', hcs', hall', hstop'⟩ := h'
  have hsame {cs cs' : List Nat} {rest rest' : List UInt8} (hcs : Decodes text cs rest)
      (hstop : ∀ c n, decode? rest = some (c, n) → ¬p c) (hcs' : Decodes text cs' rest')
      (hall' : ∀ c ∈ cs', p c) (hle : rest'.length ≤ rest.length) : rest = rest' := by
    obtain ⟨es, rfl, hes⟩ := hcs.connects hcs' hle
    cases hes with
    | nil => rfl
    | cons hc _ => exact absurd (hall' _ (by simp)) (hstop _ _ hc)
  have hrest : rest = rest' := by
    rcases Nat.le_total rest'.length rest.length with hle | hle
    · exact hsame hcs hstop hcs' hall' hle
    · exact (hsame hcs' hstop' hcs hall hle).symm
  rw [← hrest, htext] at htext'
  exact List.append_cancel_right htext'

/-! ### There is one token at most -/

section

variable {t : Token} {w : List UInt8} {v n : Nat}

lemma not_isOperatorPart (h : classOf v = .ident) : ¬IsOperatorPart v := by
  rw [IsOperatorPart, h]
  decide

lemma Munches.of_word (h : Munches lexicon text t w) (hfirst : decode? text = some (v, n))
    (hv : classOf v = .ident) :
    ∃ word, LongestRun IsWordPart text word ∧
      (t ≠ .comment ∧ w = word ∧ lexicon.Calls word .ident t ∨
        t = .comment ∧ lexicon.Names word .comment ∧ LongestRun (· ≠ 0x0A) text w) := by
  cases h with
  | word _ _ hw ht hcomment => exact ⟨_, hw, .inl ⟨hcomment, rfl, ht⟩⟩
  | wordComment _ _ hw hcomment hline => exact ⟨_, hw, .inr ⟨rfl, hcomment, hline⟩⟩
  | operator hfirst' hv' | operatorComment hfirst' hv' =>
    rw [hfirst] at hfirst'
    cases hfirst'
    exact absurd hv' (not_isOperatorPart hv)

lemma Munches.of_operator (h : Munches lexicon text t w) (hfirst : decode? text = some (v, n))
    (hv : IsOperatorPart v) :
    ∃ run, LongestRun IsOperatorPart text run ∧
      ((∀ mark, mark ≠ [] → mark <+: run → ¬lexicon.Names mark .comment) ∧ w = run ∧
          lexicon.Calls run (classOf v) t ∨
        t = .comment ∧ (∃ mark, mark ≠ [] ∧ mark <+: run ∧ lexicon.Names mark .comment) ∧
          LongestRun (· ≠ 0x0A) text w) := by
  cases h with
  | word hfirst' hv' | wordComment hfirst' hv' =>
    rw [hfirst] at hfirst'
    cases hfirst'
    exact absurd hv (not_isOperatorPart hv'.1)
  | operator hfirst' _ hw hcomment ht =>
    rw [hfirst] at hfirst'
    cases hfirst'
    exact ⟨_, hw, .inl ⟨hcomment, rfl, ht⟩⟩
  | operatorComment _ _ hw hne hmark hcomment hline =>
    exact ⟨_, hw, .inr ⟨rfl, ⟨_, hne, hmark, hcomment⟩, hline⟩⟩

lemma Lexicon.Calls.eq_of_names {bytes : List UInt8} {kind u : Token}
    (h : lexicon.Calls bytes kind t) (h' : lexicon.Names bytes u) : t = u := by
  rcases h with h | ⟨hnone, -⟩
  · exact h.unique h'
  · exact absurd h' (hnone u)

/-- A text starts with one word at most. -/
lemma Munches.unique_word {t' : Token} {w' : List UInt8} (hfirst : decode? text = some (v, n))
    (hv : classOf v = .ident) (h : Munches lexicon text t w) (h' : Munches lexicon text t' w') :
    t = t' ∧ w = w' := by
  obtain ⟨word, hword, hcases⟩ := h.of_word hfirst hv
  obtain ⟨word', hword', hcases'⟩ := h'.of_word hfirst hv
  obtain rfl := hword.unique hword'
  rcases hcases with ⟨hne, rfl, hcalls⟩ | ⟨rfl, hnames, hline⟩ <;>
    rcases hcases' with ⟨hne', rfl, hcalls'⟩ | ⟨rfl, hnames', hline'⟩
  · exact ⟨hcalls.unique hcalls', rfl⟩
  · exact absurd (hcalls.eq_of_names hnames') hne
  · exact absurd (hcalls'.eq_of_names hnames) hne'
  · exact ⟨rfl, hline.unique hline'⟩

/-- A text starts with one operator at most. -/
lemma Munches.unique_operator {t' : Token} {w' : List UInt8} (hfirst : decode? text = some (v, n))
    (hv : IsOperatorPart v) (h : Munches lexicon text t w) (h' : Munches lexicon text t' w') :
    t = t' ∧ w = w' := by
  obtain ⟨run, hrun, hcases⟩ := h.of_operator hfirst hv
  obtain ⟨run', hrun', hcases'⟩ := h'.of_operator hfirst hv
  obtain rfl := hrun.unique hrun'
  rcases hcases with ⟨hnone, rfl, hcalls⟩ | ⟨rfl, ⟨mark, hne, hmark, hnames⟩, hline⟩ <;>
    rcases hcases' with ⟨hnone', rfl, hcalls'⟩ | ⟨rfl, ⟨mark', hne', hmark', hnames'⟩, hline'⟩
  · exact ⟨hcalls.unique hcalls', rfl⟩
  · exact absurd hnames' (hnone mark' hne' hmark')
  · exact absurd hnames (hnone' mark hne hmark)
  · exact ⟨rfl, hline.unique hline'⟩

/-- A text starts with one word or operator at most. -/
theorem Munches.unique {t' : Token} {w' : List UInt8} (h : Munches lexicon text t w)
    (h' : Munches lexicon text t' w') : t = t' ∧ w = w' := by
  have hboth := h
  cases h with
  | word hfirst hv | wordComment hfirst hv => exact unique_word hfirst hv.1 hboth h'
  | operator hfirst hv | operatorComment hfirst hv => exact unique_operator hfirst hv hboth h'

end

/-! ### The scanner finds this token -/

namespace Scan

variable {p : Nat → Bool} {q : Nat → Prop} {t : Token} {v n : Nat}

lemma run_cons_of_pos {bs : List UInt8} (hv : p v = true) (rest : List Symbol) :
    run p (codePoint v bs :: rest) = codePoint v bs :: run p rest :=
  List.takeWhile_cons_of_pos hv

lemma run_cons_of_neg {bs : List UInt8} (hv : ¬p v = true) (rest : List Symbol) :
    run p (codePoint v bs :: rest) = [] :=
  List.takeWhile_cons_of_neg hv

/-- A run of symbols is the longest run of the text. -/
lemma longestRun_run (hpq : ∀ c, p c = true ↔ q c) (text : List UInt8) :
    LongestRun q text (spell (run p (decode text))) ∧
      ∀ s ∈ run p (decode text), s.IsSequence := by
  have hprefix : run p (decode text) <+: decode text := List.takeWhile_prefix _
  have hwell : Symbol.WellFormed (run p (decode text)) := by
    intro s hs
    exact isSome_value?_of_any (any_of_mem_run hs)
  have hsplit : decode text =
      run p (decode text) ++ (decode text).drop (run p (decode text)).length := by
    conv_lhs => rw [← List.take_append_drop (run p (decode text)).length (decode text)]
    rw [take_length_run]
  obtain ⟨rest, htext, hafter, hdecodes, -⟩ := Symbol.decodes_of_decode_eq_append hsplit hwell
  refine ⟨⟨_, rest, htext, hdecodes, ?_, ?_⟩, ?_⟩
  · intro c hc
    obtain ⟨s, hs, hvalue⟩ := List.mem_filterMap.1 hc
    have hrun := any_of_mem_run hs
    rw [hvalue, Option.any_some] at hrun
    exact (hpq c).1 hrun
  · intro c n hc
    have hstop := any_drop_takeWhile (fun s => s.value?.any p) (decode text)
    rw [← run, hafter, Symbol.decode_of_some hc] at hstop
    intro hq
    rw [List.head?_cons, Option.any_some, Symbol.value?, Option.any_some, (hpq c).2 hq] at hstop
    cases hstop
  · intro s hs
    exact Symbol.isSequence_of_mem_decode (List.IsPrefix.subset hprefix hs) (hwell s hs)

/-- In a line that is decoded, no run within it stops at a malformed byte. -/
lemma readable_run (h : ReadableLine text) (hp : p 0x0A = false) :
    startsMalformed ((decode text).drop (run p (decode text)).length) = false := by
  obtain ⟨cs, rest, hcs, hend⟩ := h
  induction hcs with
  | nil text =>
    obtain rfl : text = [] := hend.resolve_right List.not_mem_nil
    rfl
  | @cons text rest c n cs hc _ ih =>
    rw [Symbol.decode_of_some hc]
    by_cases hpc : p c = true
    · rw [run_cons_of_pos hpc]
      refine ih ?_
      rcases hend with hend | hend
      · exact .inl hend
      · refine .inr ((List.mem_cons.1 hend).resolve_left ?_)
        rintro rfl
        rw [hp] at hpc
        cases hpc
    · rw [run_cons_of_neg hpc]
      rfl

/-- A comment that starts in a run within its line goes on to the end of this line. -/
lemma shift_comment (h : ReadableLine text) (hp : p 0x0A = false) {k : Nat}
    (hk : k ≤ (run p (decode text)).length) :
    (comment ((decode text).drop k)).shift k =
      done (run (· != 0x0A) (decode text)).length .comment := by
  have hpassed : ∀ s ∈ (decode text).take k, s.value?.any (· != 0x0A) = true := by
    intro s hs
    have hmem : s ∈ run p (decode text) := by
      rw [← take_length_run p]
      exact (List.take_sublist_take_left hk).subset hs
    have hany := any_of_mem_run hmem
    cases hvalue : s.value? with
    | none =>
      rw [hvalue] at hany
      cases hany
    | some c =>
      rw [Option.any_some, bne_iff_ne]
      rintro rfl
      exact value?_ne_of_mem_run hp hmem hvalue
  have hle : k ≤ (decode text).length := Nat.le_trans hk (length_run_le p _)
  have hrun : (run (· != 0x0A) (decode text)).length =
      k + (run (· != 0x0A) ((decode text).drop k)).length := by
    conv_lhs =>
      rw [run, ← List.take_append_drop k (decode text), List.takeWhile_append_of_pos hpassed]
    rw [List.length_append, List.length_take_of_le hle, run]
  have hmalformed := readable_run (p := (· != 0x0A)) h rfl
  rw [hrun, ← List.drop_drop] at hmalformed
  rw [comment, andThen, hmalformed, hrun]
  rfl

lemma isWordPart_iff (c : Nat) : isWordPart c = true ↔ IsWordPart c := by
  simp [isWordPart, IsWordPart, and_assoc]

lemma keyword?_getD_ne_comment {ss : List Symbol} {kind : Token} (hkind : kind ≠ .comment)
    (h : keyword? lexicon ss ≠ some .comment) : (keyword? lexicon ss).getD kind ≠ .comment := by
  cases hkeyword : keyword? lexicon ss with
  | none => exact hkind
  | some t =>
    rintro rfl
    exact h hkeyword

lemma andThen_cons (first : Symbol) (rest : List Symbol) (k : Nat) (next : List Symbol → Scan) :
    (andThen rest k next).shift 1 = andThen (first :: rest) (k + 1) next := by
  simp only [andThen, List.drop_succ_cons]
  split
  · simp [shift, fail, Nat.add_comm]
  · simp only [shift, Nat.add_assoc, Nat.add_comm k]

section

variable {symbols rest : List Symbol} {bs : List UInt8}

/-- A text that starts with a word is passed up to the end of this word. -/
lemma token_word (hsymbols : symbols = codePoint v bs :: rest)
    (hv : classOf v = .ident ∧ v ≠ 0x60) :
    token lexicon symbols = andThen symbols (run isWordPart symbols).length fun rest =>
      match keyword? lexicon (run isWordPart symbols) with
      | some .comment => comment rest
      | some t => done 0 t
      | none => done 0 .ident := by
  have hpart : isWordPart v = true := by
    rw [isWordPart_iff]
    refine ⟨.inl hv.1, hv.2, ?_⟩
    rintro rfl
    exact absurd hv.1 (by decide)
  rw [hsymbols, token, tail.eq_def, hv.1, run_cons_of_pos hpart]
  simp only [if_neg hv.2, word]
  exact andThen_cons _ _ _ _

/-- A text that starts with an operator is passed up to the end of this operator, unless a comment
is marked in it. -/
lemma token_operator (hsymbols : symbols = codePoint v bs :: rest) (hv : IsOperatorPart v) :
    let part := run (fun c => (classOf c).isOperator) symbols
    token lexicon symbols =
      match commentMark? lexicon part with
      | some k => (comment (symbols.drop k)).shift k
      | none => andThen symbols part.length fun _ =>
          done 0 ((keyword? lexicon part).getD (classOf v)) := by
  intro part
  have hpart : part = codePoint v bs :: run (fun c => (classOf c).isOperator) rest := by
    rw [← run_cons_of_pos (p := fun c => (classOf c).isOperator) hv, ← hsymbols]
  have htoken : token lexicon symbols =
      (operator lexicon (classOf v) (codePoint v bs) rest).shift 1 := by
    have hkind : (classOf v).isOperator = true := hv
    rw [hsymbols, token, tail.eq_def]
    generalize classOf v = kind at hkind
    cases kind <;> first | exact absurd hkind (by decide) | rfl
  rw [htoken, hpart, operator, hsymbols]
  cases hmark :
    commentMark? lexicon (codePoint v bs :: run (fun c => (classOf c).isOperator) rest) with
  | some k =>
    obtain ⟨-, hpos, -⟩ := commentMark?_eq_some.1 hmark
    obtain ⟨k, rfl⟩ := Nat.exists_eq_add_one_of_ne_zero (Nat.ne_of_gt hpos)
    simp only [shift, Nat.add_sub_cancel, List.drop_succ_cons, Nat.add_right_comm k 1,
      Nat.add_comm 1]
  | none => exact andThen_cons _ _ _ _

end

section

variable (h : ReadableLine text) (hfirst : decode? text = some (v, n))
include h hfirst

/-- The scanner finds the word with which a text starts. -/
lemma exists_munches_word (hv : classOf v = .ident ∧ v ≠ 0x60) :
    ∃ t k, token lexicon (decode text) = done k t ∧
      Munches lexicon text t (spell ((decode text).take k)) := by
  obtain ⟨hword, hseq⟩ := longestRun_run isWordPart_iff text
  obtain ⟨hline, -⟩ := longestRun_run (p := (· != 0x0A)) (q := (· ≠ 0x0A)) (by simp) text
  have hmalformed := readable_run (p := isWordPart) h rfl
  rw [← take_length_run (· != 0x0A)] at hline
  rw [token_word (Symbol.decode_of_some hfirst) hv, andThen, hmalformed]
  by_cases hkeyword : keyword? lexicon (run isWordPart (decode text)) = some .comment
  · have hnames := (keyword?_eq_some_iff hseq).1 hkeyword
    have hcomment := shift_comment (p := isWordPart) h rfl (Nat.le_refl _)
    rw [hkeyword]
    exact ⟨_, _, hcomment, .wordComment hfirst hv hword hnames hline⟩
  · have hcalls : lexicon.Calls _ .ident _ := calls_keyword? hseq .ident
    have hident : Token.ident ≠ .comment := by decide
    have hne := keyword?_getD_ne_comment hident hkeyword
    refine ⟨(keyword? lexicon (run isWordPart (decode text))).getD .ident,
      (run isWordPart (decode text)).length, ?_, ?_⟩
    · cases hk : keyword? lexicon (run isWordPart (decode text)) with
      | none => rfl
      | some t =>
        cases t with
        | comment => exact absurd hk hkeyword
        | _ => rfl
    · rw [take_length_run]
      exact .word hfirst hv hword hcalls hne

/-- The scanner finds the operator with which a text starts. -/
lemma exists_munches_operator (hv : IsOperatorPart v) :
    ∃ t k, token lexicon (decode text) = done k t ∧
      Munches lexicon text t (spell ((decode text).take k)) := by
  obtain ⟨hrun, hseq⟩ :=
    longestRun_run (p := fun c => (classOf c).isOperator) (q := IsOperatorPart) (fun _ => .rfl) text
  obtain ⟨hline, -⟩ := longestRun_run (p := (· != 0x0A)) (q := (· ≠ 0x0A)) (by simp) text
  have hmalformed := readable_run (p := fun c => (classOf c).isOperator) h rfl
  have hnone : commentMark? lexicon _ = none ↔ _ := commentMark?_eq_none_iff hseq
  rw [← take_length_run (· != 0x0A)] at hline
  rw [token_operator (Symbol.decode_of_some hfirst) hv]
  split
  · next k hmark =>
    obtain ⟨-, -, hk, -⟩ := commentMark?_eq_some.1 hmark
    have hcomment := shift_comment (p := fun c => (classOf c).isOperator) h rfl hk
    have hmarked : ¬∀ mark, mark ≠ [] →
        mark <+: spell (run (fun c => (classOf c).isOperator) (decode text)) →
        ¬lexicon.Names mark .comment := by
      rw [← hnone, hmark]
      exact Option.some_ne_none k
    push Not at hmarked
    obtain ⟨mark, hne, hprefix, hnames⟩ := hmarked
    exact ⟨_, _, hcomment, .operatorComment hfirst hv hrun hne hprefix hnames hline⟩
  · next hmark =>
    have hcalls : lexicon.Calls _ (classOf v) _ := calls_keyword? hseq (classOf v)
    rw [andThen, hmalformed]
    refine ⟨_, _, rfl, ?_⟩
    rw [done, Nat.add_zero, take_length_run]
    exact .operator hfirst hv hrun (hnone.1 hmark) hcalls

end

end Scan

/-- Where a word or an operator starts in a line that can be decoded, the next token is the one that
the rules give, with the bytes that they give. -/
theorem words_and_operators_munched (lexicon : Lexicon) (buffer : List UInt8) (offset size : Nat)
    (rs : List Lexer.Request) (v n : Nat) :
    let l := (Lexer.ofWindow lexicon buffer offset size).afterAll rs
    let text :=
      (Cursor.window buffer offset size).drop (l.cursor.position - min offset buffer.length)
    ReadableLine text → decode? text = some (v, n) →
      classOf v = .ident ∧ v ≠ 0x60 ∨ IsOperatorPart v →
        ∃ t, l.nextRaw.2 = .ok t ∧ l.nextRaw.1.current.start = l.cursor.position ∧
          ∀ u bytes, Munches lexicon text u bytes ↔ u = t ∧ bytes = l.nextRaw.1.current.bytes := by
  intro l text hline hfirst hv
  have hrest : l.cursor.rest = decode text := Lexer.rest_afterAll lexicon buffer offset size rs
  have hlexicon : l.lexicon = lexicon := Lexer.lexicon_afterAll _ rs
  have hscan : ∃ t k, Scan.token lexicon (decode text) = .done k t ∧
      Munches lexicon text t (spell ((decode text).take k)) := by
    rcases hv with hv | hv
    · exact Scan.exists_munches_word hline hfirst hv
    · exact Scan.exists_munches_operator hline hfirst hv
  obtain ⟨t, k, hscan, hmunches⟩ := hscan
  rw [← hrest] at hscan hmunches
  obtain ⟨hok, -, hcurrent⟩ := Lexer.nextRaw_of_token (hlexicon.symm ▸ hscan)
  refine ⟨t, hok, by rw [hcurrent], ?_⟩
  intro u bytes
  rw [hcurrent]
  constructor
  · intro h
    exact h.unique hmunches
  · rintro ⟨rfl, rfl⟩
    exact hmunches

/-- After the word `x` the operator `--y` opens a comment, which ends at the line feed. The stray
byte on the next line does not matter. -/
theorem words_and_operators_munched_comment :
    let buffer := Utf8.encode "x--y" ++ [0x0A, 0xFF]
    let l := (Lexer.ofWindow .standard buffer 0 6).afterAll [.significant]
    l.nextRaw.2 = .ok .comment ∧ l.nextRaw.1.current.bytes = Utf8.encode "--y" ∧
      Munches .standard (Utf8.encode "--y" ++ [0x0A, 0xFF]) .comment (Utf8.encode "--y") := by
  intro buffer l
  have htext : (Cursor.window buffer 0 6).drop (l.cursor.position - min 0 buffer.length) =
      Utf8.encode "--y" ++ [0x0A, 0xFF] := by decide +kernel
  have hline : ReadableLine (Utf8.encode "--y" ++ [0x0A, 0xFF]) :=
    ⟨[0x2D, 0x2D, 0x79, 0x0A], [0xFF],
      .cons rfl (.cons rfl (.cons rfl (.cons rfl (.nil _)))), .inr (by decide)⟩
  have hanswer : l.nextRaw.2 = .ok .comment := by decide +kernel
  have hbytes : l.nextRaw.1.current.bytes = Utf8.encode "--y" := by decide +kernel
  obtain ⟨t, hok, -, hmunches⟩ := words_and_operators_munched .standard buffer 0 6 [.significant]
    0x2D 1 (htext ▸ hline) (htext ▸ rfl) (.inr rfl)
  obtain rfl : t = .comment := Except.ok.inj (hok.symm.trans hanswer)
  have hmunches := (hmunches .comment _).2 ⟨rfl, rfl⟩
  rw [hbytes] at hmunches
  exact ⟨hanswer, hbytes, htext ▸ hmunches⟩

end ScriptGraph
