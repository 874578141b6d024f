import ScriptGraph.Proofs.Literals
import ScriptGraph.Proofs.Transport

/-!
# Keywords and the boundaries of tokens

A scan asks for keywords in the middle of an operator, at the end of a word and again after the
operator. Yet only a mark of a comment makes it read on: any other keyword names what has been read.
So lexicons with the same marks of comments divide every text alike, and disagree on the kind of a
token only where one of them has a keyword that the other has not.
-/

namespace ScriptGraph

/-! ### Lexicons -/

namespace Lexicon

variable {l k : Lexicon} {text : String} {t : Token}

lemma keyword?_erase (l : Lexicon) (text other : String) :
    (l.erase text).keyword? other = if other = text then none else l.keyword? other := by
  obtain ⟨keywords, -, -⟩ := l
  simp only [erase, keyword?]
  induction keywords with
  | nil => simp
  | cons k keywords ih =>
    obtain ⟨word, t⟩ := k
    by_cases hword : word = text
    · subst hword
      rw [List.filter_cons_of_neg (by simp), ih, List.lookup_cons]
      by_cases hother : other = word
      · simp [hother]
      · simp [hother, beq_false_of_ne hother]
    · rw [List.filter_cons_of_pos (by simpa using hword), List.lookup_cons, List.lookup_cons]
      by_cases hother : other = word
      · subst hother
        simp [hword]
      · rw [beq_false_of_ne hother]
        exact ih

lemma keyword?_insert (l : Lexicon) (text : String) (t : Token) (other : String) :
    (l.insert text t).keyword? other = if other = text then some t else l.keyword? other := by
  have herase := l.keyword?_erase text other
  rw [keyword?] at herase ⊢
  rw [insert, List.lookup_cons, herase]
  by_cases hother : other = text
  · simp [hother]
  · simp [hother, beq_false_of_ne hother]

/-- Whether two lexicons have the same marks of comments. -/
def SameComments (l k : Lexicon) : Prop :=
  ∀ text, l.keyword? text = some .comment ↔ k.keyword? text = some .comment

/-- Whether some bytes are a text on whose keyword two lexicons do not agree. -/
def DifferOn (l k : Lexicon) (bytes : List UInt8) : Prop :=
  ∃ text, bytes = Utf8.encode text ∧ l.keyword? text ≠ k.keyword? text

lemma SameComments.trans {m : Lexicon} (h : l.SameComments k) (h' : k.SameComments m) :
    l.SameComments m := fun text => (h text).trans (h' text)

/-- A keyword that marks no comment, and replaces no mark of one, leaves the marks as they are. -/
lemma sameComments_insert (htext : l.keyword? text ≠ some .comment) (ht : t ≠ .comment) :
    l.SameComments (l.insert text t) := by
  intro other
  rw [keyword?_insert]
  by_cases hother : other = text
  · subst hother
    simp [htext, ht]
  · simp [hother]

/-- Without a keyword that marks no comment the marks are as before. -/
lemma sameComments_erase (htext : l.keyword? text ≠ some .comment) :
    l.SameComments (l.erase text) := by
  intro other
  rw [keyword?_erase]
  by_cases hother : other = text
  · subst hother
    simp [htext]
  · simp [hother]

end Lexicon

/-! ### Texts of symbols -/

namespace Symbol

variable {ss : List Symbol} {text : String}

lemma text?_eq_some :
    text? ss = some text ↔ List.Forall₂ (fun s c => s.char? = some c) ss text.toList := by
  have hmapM (cs : List Char) :
      ss.mapM char? = some cs ↔ List.Forall₂ (fun s c => s.char? = some c) ss cs := by
    induction ss generalizing cs with
    | nil => simp [eq_comm]
    | cons s ss ih =>
      rw [List.mapM_cons, List.forall₂_cons_left_iff]
      simp only [Option.bind_eq_bind, Option.bind_eq_some_iff, Option.pure_def,
        Option.some.injEq, ih]
      constructor
      · rintro ⟨c, hc, cs, hcs, rfl⟩
        exact ⟨c, cs, hc, hcs, rfl⟩
      · rintro ⟨c, cs, hc, hcs, rfl⟩
        exact ⟨c, hc, cs, hcs, rfl⟩
  rw [text?, Option.map_eq_some_iff]
  constructor
  · rintro ⟨cs, hcs, rfl⟩
    rw [String.toList_ofList]
    exact (hmapM cs).1 hcs
  · intro h
    exact ⟨text.toList, (hmapM _).2 h, String.ofList_toList⟩

/-- A text takes as many symbols as it has characters. -/
lemma length_of_text? (h : text? ss = some text) : text.length = ss.length := by
  rw [← String.length_toList]
  exact (text?_eq_some.1 h).length_eq.symm

/-- A text is spelt by its bytes. -/
lemma spell_of_text? (hss : ∀ s ∈ ss, s.IsSequence) (h : text? ss = some text) :
    spell ss = Utf8.encode text := by
  rw [Utf8.encode]
  replace h := text?_eq_some.1 h
  generalize text.toList = cs at h
  induction h with
  | nil => rfl
  | @cons s c ss cs hc _ ih =>
    obtain ⟨hs, hrest⟩ := List.forall_mem_cons.1 hss
    rw [spell_cons, List.flatMap_cons, ih hrest]
    cases s with
    | malformed b => exact hs.elim
    | codePoint v bs =>
      obtain ⟨⟨hv, hshort⟩, rfl⟩ := Option.ite_some_none_eq_some.1 hc
      rw [toNat_ofNat_of_isValidChar hv, CodePoint.encode_of_decode? hs hshort]
      rfl

end Symbol

/-! ### Scans -/

namespace Scan

variable {l k : Lexicon} {symbols : List Symbol}

lemma keyword?_comment (h : l.SameComments k) (symbols : List Symbol) :
    keyword? l symbols = some .comment ↔ keyword? k symbols = some .comment := by
  simp only [keyword?, Option.bind_eq_some_iff, h _]

/-- The mark of a comment is the shortest start of the symbols that is one. -/
lemma commentMark?_eq_some {n : Nat} :
    commentMark? l symbols = some n ↔
      keyword? l (symbols.take n) = some .comment ∧ 0 < n ∧ n ≤ symbols.length ∧
        ∀ m, 0 < m → m < n → keyword? l (symbols.take m) ≠ some .comment := by
  have hlongest (hn : n ≤ symbols.length) (h : keyword? l (symbols.take n) = some .comment) :
      n ≤ l.longest := by
    obtain ⟨text, htext, hkeyword⟩ := Option.bind_eq_some_iff.1 h
    rw [← List.length_take_of_le hn, ← Symbol.length_of_text? htext]
    exact Lexicon.length_le_longest hkeyword
  simp only [commentMark?, List.find?_map, Option.map_eq_some_iff, List.find?_range_eq_some]
  constructor
  · rintro ⟨i, ⟨hmark, hi, hbefore⟩, rfl⟩
    simp at hmark hi hbefore
    refine ⟨hmark, Nat.succ_pos i, hi.2, ?_⟩
    intro m hpos hm
    obtain ⟨m, rfl⟩ := Nat.exists_eq_add_one_of_ne_zero (Nat.ne_of_gt hpos)
    exact hbefore m (Nat.lt_of_succ_lt_succ hm)
  · rintro ⟨hmark, hpos, hn, hbefore⟩
    obtain ⟨i, rfl⟩ := Nat.exists_eq_add_one_of_ne_zero (Nat.ne_of_gt hpos)
    refine ⟨i, ⟨by simpa using hmark, ?_, ?_⟩, rfl⟩
    · simpa using ⟨hlongest hn hmark, hn⟩
    · intro j hj
      simpa using hbefore (j + 1) (Nat.succ_pos j) (Nat.succ_lt_succ hj)

lemma commentMark?_congr (h : l.SameComments k) (symbols : List Symbol) :
    commentMark? l symbols = commentMark? k symbols := by
  apply Option.ext
  intro n
  rw [commentMark?_eq_some, commentMark?_eq_some]
  simp only [keyword?_comment h, ne_eq]

/-- Whether two scans of some symbols pass the same of them and have the same fault or the same
token, unless the symbols passed are a keyword on which the lexicons do not agree. -/
structure SameBounds (l k : Lexicon) (symbols : List Symbol) (s s' : Scan) : Prop where
  count : s'.count = s.count
  outcome : Alongside Eq
    (fun t u => t = u ∨
      keyword? l (symbols.take s.count) ≠ keyword? k (symbols.take s.count)) s.outcome s'.outcome

lemma sameBounds_self (l k : Lexicon) (symbols : List Symbol) (s : Scan) :
    SameBounds l k symbols s s := by
  refine ⟨rfl, ?_⟩
  cases s.outcome with
  | error fault => exact .error rfl
  | ok t => exact .ok (.inl rfl)

/-- Tokens that the lexicons name after all that has been passed. -/
lemma sameBounds_named (symbols : List Symbol) (n : Nat) (t : Token) :
    SameBounds l k symbols (done n ((keyword? l (symbols.take n)).getD t))
      (done n ((keyword? k (symbols.take n)).getD t)) := by
  refine ⟨rfl, .ok ?_⟩
  by_cases hsame : keyword? l (symbols.take n) = keyword? k (symbols.take n)
  · left
    rw [hsame]
  · right
    exact hsame

lemma cons_run (p : Nat → Bool) (first : Symbol) (rest : List Symbol) :
    first :: run p rest = (first :: rest).take (1 + (run p rest).length) := by
  have hprefix : run p rest <+: rest := List.takeWhile_prefix _
  rw [Nat.add_comm, List.take_succ_cons, ← List.prefix_iff_eq_take.1 hprefix]

/-- A word that is no mark of a comment has been read when its keyword is asked for. -/
lemma word_of_ne_comment {first : Symbol} {rest : List Symbol}
    (hrest : startsMalformed (rest.drop (run isWordPart rest).length) = false)
    (h : keyword? l (first :: run isWordPart rest) ≠ some .comment) :
    word l first rest =
      done (run isWordPart rest).length
        ((keyword? l (first :: run isWordPart rest)).getD .ident) := by
  simp only [word, andThen, hrest, Bool.false_eq_true, if_false]
  split
  · next hcomment => exact absurd hcomment h
  · next t _ ht =>
    rw [ht]
    rfl
  · next hnone =>
    rw [hnone]
    rfl

lemma sameBounds_word (h : l.SameComments k) (first : Symbol) (rest : List Symbol) :
    SameBounds l k (first :: rest) ((word l first rest).shift 1)
      ((word k first rest).shift 1) := by
  cases hmalformed : startsMalformed (rest.drop (run isWordPart rest).length) with
  | true =>
    simp only [word, andThen, hmalformed, if_true]
    exact sameBounds_self _ _ _ _
  | false =>
    by_cases hcomment : keyword? l (first :: run isWordPart rest) = some .comment
    · simp only [word, andThen, hcomment, (keyword?_comment h _).1 hcomment]
      exact sameBounds_self _ _ _ _
    · have hcomment' := mt (keyword?_comment h _).2 hcomment
      rw [word_of_ne_comment hmalformed hcomment, word_of_ne_comment hmalformed hcomment',
        cons_run]
      exact sameBounds_named (first :: rest) (1 + (run isWordPart rest).length) .ident

lemma sameBounds_operator (h : l.SameComments k) (kind : Token) (first : Symbol)
    (rest : List Symbol) :
    SameBounds l k (first :: rest) ((operator l kind first rest).shift 1)
      ((operator k kind first rest).shift 1) := by
  simp only [operator, commentMark?_congr h]
  split
  · exact sameBounds_self _ _ _ _
  · simp only [andThen]
    split
    · exact sameBounds_self _ _ _ _
    · rw [cons_run]
      exact sameBounds_named (first :: rest) _ kind

lemma sameBounds_tail (h : l.SameComments k) (first : Symbol) (v : Nat) (rest : List Symbol) :
    SameBounds l k (first :: rest) ((tail l first v rest).shift 1)
      ((tail k first v rest).shift 1) := by
  have hself (s : Scan) := sameBounds_self l k (first :: rest) (s.shift 1)
  simp only [tail]
  split
  · exact hself _
  · split
    · exact hself _
    · exact sameBounds_word h first rest
  · exact hself _
  · exact hself _
  · exact hself _
  · split
    · exact sameBounds_operator h _ first rest
    · exact hself _

/-- Keywords that mark no comment do not move the end of a token. -/
lemma sameBounds_token (h : l.SameComments k) (symbols : List Symbol) :
    SameBounds l k symbols (token l symbols) (token k symbols) := by
  match symbols with
  | [] => exact sameBounds_self _ _ _ _
  | .malformed b :: rest => exact sameBounds_self _ _ _ _
  | .codePoint v bs :: rest => exact sameBounds_tail h (.codePoint v bs) v rest

/-- Symbols that are a keyword to one lexicon only spell its text. -/
lemma differOn_of_keyword?_ne (hss : ∀ s ∈ symbols, s.IsSequence)
    (h : keyword? l symbols ≠ keyword? k symbols) : l.DifferOn k (Symbol.spell symbols) := by
  cases htext : Symbol.text? symbols with
  | none => simp [keyword?, htext] at h
  | some text =>
    simp only [keyword?, htext, Option.bind_some] at h
    exact ⟨text, Symbol.spell_of_text? hss htext, h⟩

end Scan

/-! ### Lexers -/

namespace Lexer

variable {a b : Lexer} {window rest : List UInt8} {offset : Nat} {cs : List Nat}

/-- Whether two answers are the same error or tokens of the same kind, or of two kinds if their
lexeme is a text on whose keyword the lexicons do not agree. -/
def SameAnswer (l k : Lexicon) (bytes : List UInt8) :
    Except Error Token → Except Error Token → Prop :=
  Alongside Eq fun t u => t = u ∨ l.DifferOn k bytes

/-- A request to two lexers that stand at the same place and have the same marks of comments. -/
lemma nextRaw_sameBounds (h : a.lexicon.SameComments b.lexicon) (hcursor : b.cursor = a.cursor)
    (hat : a.cursor.At window offset cs rest) :
    SameAnswer a.lexicon b.lexicon a.nextRaw.1.current.bytes a.nextRaw.2 b.nextRaw.2 ∧
      b.nextRaw.1.cursor = a.nextRaw.1.cursor ∧
      b.nextRaw.1.current =
        { a.nextRaw.1.current with token := b.nextRaw.1.current.token } := by
  obtain ⟨hcount, houtcome⟩ := Scan.sameBounds_token h a.cursor.rest
  have hdiffer := Scan.differOn_of_keyword?_ne (l := a.lexicon) (k := b.lexicon)
    (isSequence_of_passed hat.symbols)
  rw [cursor_nextRaw, cursor_nextRaw, hcursor, hcount]
  simp only [nextRaw, hcursor, hcount]
  revert houtcome
  generalize (Scan.token a.lexicon a.cursor.rest).outcome = x,
    (Scan.token b.lexicon a.cursor.rest).outcome = y
  rintro (rfl | ht)
  · exact ⟨.error rfl, trivial, rfl⟩
  · exact ⟨.ok (ht.imp_right hdiffer), trivial, rfl⟩

/-- After any number of requests the lexers stand at the same place. -/
lemma cursor_afterRaw_of_sameComments {l k : Lexicon} (h : l.SameComments k) (buffer : List UInt8)
    (offset size n : Nat) :
    ((ofWindow k buffer offset size).afterRaw n).cursor =
      ((ofWindow l buffer offset size).afterRaw n).cursor := by
  induction n with
  | zero => rfl
  | succ n ih =>
    obtain ⟨cs, rest, hat⟩ := exists_at_afterRaw (l := ofWindow l buffer offset size)
      (Cursor.At.ofWindow buffer offset size) n
    refine (nextRaw_sameBounds ?_ ih hat).2.1
    rw [lexicon_afterRaw, lexicon_afterRaw]
    exact h

end Lexer

/-- Keywords do not move the boundaries of tokens: two lexicons with the same marks of comments
divide every window alike, into lexemes with the same bytes at the same places and with the same
errors. Only the kind of a token can differ, and only if all of its lexeme is a text on whose
keyword the lexicons do not agree. -/
theorem boundaries_independent_of_keywords {l k : Lexicon} (h : l.SameComments k)
    (buffer : List UInt8) (offset size n : Nat) :
    let a := (Lexer.ofWindow l buffer offset size).afterRaw n
    let b := (Lexer.ofWindow k buffer offset size).afterRaw n
    Lexer.SameAnswer l k a.nextRaw.1.current.bytes a.nextRaw.2 b.nextRaw.2 ∧
      b.nextRaw.1.cursor = a.nextRaw.1.cursor ∧
      b.nextRaw.1.current =
        { a.nextRaw.1.current with token := b.nextRaw.1.current.token } := by
  intro a b
  have hlexicon : a.lexicon = l := Lexer.lexicon_afterRaw _ n
  have hlexicon' : b.lexicon = k := Lexer.lexicon_afterRaw _ n
  have hcursor : b.cursor = a.cursor :=
    Lexer.cursor_afterRaw_of_sameComments h buffer offset size n
  obtain ⟨cs, rest, hat⟩ := Lexer.exists_at_afterRaw (l := Lexer.ofWindow l buffer offset size)
    (Cursor.At.ofWindow buffer offset size) n
  rw [← hlexicon, ← hlexicon'] at h ⊢
  exact Lexer.nextRaw_sameBounds h hcursor hat

/-- A lexicon with another mark of comments. -/
def remarks : Lexicon := Lexicon.standard.insert "rem" .comment

/-- The same lexicon with another word for functions. -/
def renamed : Lexicon := (remarks.insert "fn" .kwFun).erase "fun"

/-- One lexicon has a name where the other one has a keyword, of the same bytes. Before the end they
read the same comment. -/
theorem boundaries_independent_of_keywords_renamed :
    let source := Utf8.encode "fn {} rem fun"
    let a := Lexer.ofWindow remarks source 0 13
    let b := Lexer.ofWindow renamed source 0 13
    remarks.SameComments renamed ∧ a.nextRaw.2 = .ok .ident ∧ b.nextRaw.2 = .ok .kwFun ∧
      remarks.DifferOn renamed a.nextRaw.1.current.bytes ∧
      (a.afterRaw 5).nextRaw.2 = .ok .comment ∧
      (b.afterRaw 5).nextRaw.1.cursor = (a.afterRaw 5).nextRaw.1.cursor := by
  intro source a b
  have hsame : remarks.SameComments renamed :=
    (Lexicon.sameComments_insert (by decide) (by decide)).trans
      (Lexicon.sameComments_erase (by decide))
  have hident : a.nextRaw.2 = .ok .ident := by decide +kernel
  have hfun : b.nextRaw.2 = .ok .kwFun := by decide +kernel
  obtain ⟨hanswer, -, -⟩ := boundaries_independent_of_keywords hsame source 0 13 0
  obtain ⟨-, hcursor, -⟩ := boundaries_independent_of_keywords hsame source 0 13 5
  have hcomment : (a.afterRaw 5).nextRaw.2 = .ok .comment := by decide +kernel
  refine ⟨hsame, hident, hfun, ?_, hcomment, by simpa only [a, b] using hcursor⟩
  simp only [Lexer.afterRaw] at hanswer
  rw [Lexer.SameAnswer, hident, hfun] at hanswer
  cases hanswer with
  | ok h => exact h.resolve_left (by decide)

end ScriptGraph
