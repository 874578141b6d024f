import ScriptGraph.Lexer.Scan
import ScriptGraph.Proofs.Decoding

/-!
# What a scan passes

A scan passes well-formed symbols only, whatever it looks for. If it fails because of a malformed
byte, that byte is the one before which it has stopped.
-/

namespace ScriptGraph

namespace Symbol

lemma wellFormed_nil : WellFormed [] := by
  intro s hs
  cases hs

lemma wellFormed_cons {c : Nat} {bs : List UInt8} {symbols : List Symbol} :
    WellFormed (codePoint c bs :: symbols) ↔ WellFormed symbols := by
  simp [WellFormed, value?]

lemma WellFormed.append {ss ts : List Symbol} (hs : WellFormed ss) (ht : WellFormed ts) :
    WellFormed (ss ++ ts) := by
  intro s h
  rcases List.mem_append.1 h with h | h
  · exact hs s h
  · exact ht s h

/-- A symbol of a single byte is well formed. -/
lemma isSome_value?_of_single? {s : Symbol} {b : UInt8} (h : s.single? = some b) :
    s.value?.isSome := by
  cases s with
  | codePoint v bs => rfl
  | malformed b => cases h

end Symbol

namespace Scan

open ScriptGraph.Symbol (WellFormed)

/-- Whether a scan of some symbols has passed well-formed ones only, and stands before a malformed
byte if that is its fault. -/
structure Sound (symbols : List Symbol) (s : Scan) : Prop where
  within : s.count ≤ symbols.length
  wellFormed : WellFormed (symbols.take s.count)
  malformed : s.outcome = .error .malformed → startsMalformed (symbols.drop s.count) = true

variable {symbols rest : List Symbol}

lemma sound_done (symbols : List Symbol) (t : Token) : Sound symbols (done 0 t) :=
  ⟨Nat.zero_le _, by simpa [done] using Symbol.wellFormed_nil, by simp [done]⟩

lemma sound_unexpected (symbols : List Symbol) (expectation got : String) :
    Sound symbols (fail 0 (.unexpected expectation got)) :=
  ⟨Nat.zero_le _, by simpa [fail] using Symbol.wellFormed_nil, by simp [fail]⟩

lemma sound_malformed (h : startsMalformed symbols = true) :
    Sound symbols (fail 0 .malformed) :=
  ⟨Nat.zero_le _, by simpa [fail] using Symbol.wellFormed_nil, fun _ => h⟩

/-- A scan goes on after symbols that are well formed. -/
lemma Sound.shift {n : Nat} {s : Scan} (h : Sound (symbols.drop n) s) (hn : n ≤ symbols.length)
    (hpassed : WellFormed (symbols.take n)) : Sound symbols (s.shift n) := by
  obtain ⟨hwithin, hwellFormed, hmalformed⟩ := h
  rw [List.length_drop] at hwithin
  refine ⟨by simp only [Scan.shift]; omega, ?_, ?_⟩
  · simp only [Scan.shift, List.take_add]
    exact hpassed.append hwellFormed
  · intro hfault
    simp only [Scan.shift, ← List.drop_drop]
    exact hmalformed hfault

lemma Sound.cons {c : Nat} {bs : List UInt8} {s : Scan} (h : Sound rest s) :
    Sound (.codePoint c bs :: rest) (s.shift 1) := by
  have hdrop : Sound ((.codePoint c bs :: rest : List Symbol).drop 1) s := h
  exact hdrop.shift (by simp) (Symbol.wellFormed_cons.2 Symbol.wellFormed_nil)

lemma Sound.cons_cons {c d : Nat} {bs ds : List UInt8} {s : Scan} (h : Sound rest s) :
    Sound (.codePoint c bs :: .codePoint d ds :: rest) (s.shift 2) := by
  have hdrop : Sound ((.codePoint c bs :: .codePoint d ds :: rest : List Symbol).drop 2) s := h
  exact hdrop.shift (by simp)
    (Symbol.wellFormed_cons.2 (Symbol.wellFormed_cons.2 Symbol.wellFormed_nil))

lemma Sound.andThen {n : Nat} {next : List Symbol → Scan} (hn : n ≤ symbols.length)
    (hpassed : WellFormed (symbols.take n))
    (hnext : Sound (symbols.drop n) (next (symbols.drop n))) :
    Sound symbols (andThen symbols n next) := by
  simp only [Scan.andThen]
  split
  · next h => exact (sound_malformed h).shift hn hpassed
  · exact hnext.shift hn hpassed

/-- The symbols of a run that holds well-formed ones only are passed. -/
lemma wellFormed_takeWhile {p : Symbol → Bool} (hp : ∀ s, p s = true → s.value?.isSome)
    (symbols : List Symbol) :
    (symbols.takeWhile p).length ≤ symbols.length ∧
      symbols.take (symbols.takeWhile p).length = symbols.takeWhile p ∧
      WellFormed (symbols.takeWhile p) := by
  have hpre := List.takeWhile_prefix p (l := symbols)
  refine ⟨hpre.length_le, (List.prefix_iff_eq_take.1 hpre).symm, ?_⟩
  intro s hs
  exact hp s (List.all_eq_true.1 List.all_takeWhile s hs)

lemma isSome_value?_of_any {p : Nat → Bool} {s : Symbol} (h : s.value?.any p = true) :
    s.value?.isSome := by
  cases hv : s.value? with
  | none =>
    rw [hv] at h
    cases h
  | some v => rfl

lemma isSome_value?_of_any_single? {p : UInt8 → Bool} {s : Symbol} (h : s.single?.any p = true) :
    s.value?.isSome := by
  cases hb : s.single? with
  | none =>
    rw [hb] at h
    cases h
  | some b => exact Symbol.isSome_value?_of_single? hb

lemma sound_run (p : Nat → Bool) (symbols : List Symbol) {next : List Symbol → Scan}
    (hnext : ∀ ss, Sound ss (next ss)) :
    Sound symbols (andThen symbols (run p symbols).length next) := by
  obtain ⟨hn, htake, hpassed⟩ :=
    wellFormed_takeWhile (p := fun s => s.value?.any p) (fun _ => isSome_value?_of_any) symbols
  exact Sound.andThen hn (by rw [run, htake]; exact hpassed) (hnext _)

lemma sound_comment (symbols : List Symbol) : Sound symbols (comment symbols) :=
  sound_run _ _ fun ss => sound_done ss .comment

lemma sound_blanks (symbols : List Symbol) : Sound symbols (blanks symbols) := by
  obtain ⟨hn, htake, hpassed⟩ := wellFormed_takeWhile
    (p := fun s => s.single?.any fun b => classOf b.toNat = .whitespace)
    (fun _ => isSome_value?_of_any_single?) symbols
  exact (sound_done _ .whitespace).shift hn (by rw [htake]; exact hpassed)

lemma sound_word (lexicon : Lexicon) (first : Symbol) (symbols : List Symbol) :
    Sound symbols (word lexicon first symbols) := by
  unfold word
  refine sound_run isWordPart symbols fun ss => ?_
  split
  · exact sound_comment ss
  · exact sound_done ss _
  · exact sound_done ss _

/-- A mark of a comment takes a symbol at least, and no more than there are. -/
lemma length_of_commentMark? {lexicon : Lexicon} {n : Nat}
    (h : commentMark? lexicon symbols = some n) : 0 < n ∧ n ≤ symbols.length := by
  have hmem := List.mem_of_find?_eq_some h
  obtain ⟨k, hk, rfl⟩ := List.mem_map.1 hmem
  have := List.mem_range.1 hk
  omega

lemma sound_operator (lexicon : Lexicon) (kind : Token) (first : Symbol) (symbols : List Symbol) :
    Sound symbols (operator lexicon kind first symbols) := by
  simp only [operator]
  split
  · next n hn =>
    obtain ⟨hlen, htake, hpassed⟩ := wellFormed_takeWhile
      (p := fun s => s.value?.any fun c => (classOf c).isOperator)
      (fun _ => isSome_value?_of_any) symbols
    obtain ⟨hpos, hle⟩ := length_of_commentMark? hn
    rw [List.length_cons, run] at hle
    refine (sound_comment _).shift (by omega) ?_
    -- The mark lies within the run of operator characters.
    intro s hs
    apply hpassed
    rw [← htake]
    exact (List.take_sublist_take_left (by omega)).subset hs
  · exact sound_run _ _ fun ss => sound_done ss _

lemma sound_numeral (seenPoint : Bool) (symbols : List Symbol) :
    Sound symbols (done (numeralLength seenPoint symbols) .number) := by
  have hcons {s : Symbol} {ss : List Symbol} {n : Nat} (hs : s.value?.isSome)
      (h : Sound ss (done n .number)) : Sound (s :: ss) (done (n + 1) .number) := by
    obtain ⟨c, bs, rfl⟩ : ∃ c bs, s = .codePoint c bs := by
      cases s with
      | codePoint v bs => exact ⟨v, bs, rfl⟩
      | malformed b => cases hs
    rw [Nat.add_comm]
    exact h.cons
  fun_induction numeralLength seenPoint symbols with
  | case1 => exact sound_done [] .number
  | case2 seenPoint s ss h ih =>
    refine hcons ?_ ih
    rcases Bool.or_eq_true _ _ ▸ h with h | h
    · exact isSome_value?_of_any_single? h
    · exact Symbol.isSome_value?_of_single? (of_decide_eq_true h)
  | case3 seenPoint s ss _ h ih =>
    simp only [Bool.and_eq_true, decide_eq_true_eq] at h
    exact hcons (Symbol.isSome_value?_of_single? h.1.1) ih
  | case4 => exact sound_done _ .number

lemma sound_string (symbols : List Symbol) : Sound symbols (string symbols) := by
  fun_induction string symbols with
  | case1 => exact sound_unexpected [] _ _
  | case2 b rest => exact sound_malformed rfl
  | case3 bs rest => exact (sound_done rest .string).cons
  | case4 => exact (sound_unexpected [] _ _).cons
  | case5 => exact (sound_malformed rfl).cons
  | case6 bs w ws rest _ ih => exact ih.cons_cons
  | case7 v bs rest _ _ ih => exact ih.cons

lemma sound_rawString (symbols : List Symbol) : Sound symbols (rawString symbols) := by
  fun_induction rawString symbols with
  | case1 => exact sound_unexpected [] _ _
  | case2 b rest => exact sound_malformed rfl
  | case3 bs rest => exact (sound_done rest .string).cons
  | case4 v bs rest _ ih => exact ih.cons

lemma sound_closeChar (symbols : List Symbol) : Sound symbols (closeChar symbols) := by
  refine Sound.andThen (Nat.zero_le _) Symbol.wellFormed_nil ?_
  split
  · next h =>
    match symbols with
    | [] => cases h
    | .malformed b :: rest => cases h
    | .codePoint v bs :: rest => exact (sound_done rest .number).cons
  · exact sound_unexpected _ _ _

lemma sound_char (symbols : List Symbol) : Sound symbols (char symbols) := by
  unfold char
  split
  · exact sound_unexpected [] _ _
  · exact sound_malformed rfl
  · split_ifs
    · exact sound_unexpected _ _ _
    · split
      · exact (sound_unexpected [] _ _).cons
      · exact (sound_malformed rfl).cons
      · next w ws rest => exact (sound_closeChar rest).cons_cons
    · exact (sound_closeChar _).cons

lemma sound_quotedIdent (symbols : List Symbol) : Sound symbols (quotedIdent symbols) := by
  fun_induction quotedIdent symbols with
  | case1 => exact sound_done [] .ident
  | case2 b rest => exact sound_malformed rfl
  | case3 => exact sound_done _ .ident
  | case4 bs rest => exact (sound_done rest .ident).cons
  | case5 v bs rest _ _ ih => exact ih.cons

lemma sound_tail (lexicon : Lexicon) (first : Symbol) (v : Nat) (rest : List Symbol) :
    Sound rest (tail lexicon first v rest) := by
  unfold tail
  split
  · exact sound_blanks rest
  · split
    · exact sound_quotedIdent rest
    · exact sound_word lexicon first rest
  · split
    · exact sound_char rest
    · exact sound_numeral false rest
  · exact sound_string rest
  · split
    · next s rest =>
      split
      · next h =>
        cases s with
        | codePoint w ws => exact (sound_rawString rest).cons
        | malformed b => cases h.2
      · exact sound_done _ .other
    · exact sound_done _ .other
  · split
    · exact sound_operator lexicon _ first rest
    · exact sound_done rest _

/-- A scan for a token passes well-formed symbols only. -/
theorem sound_token (lexicon : Lexicon) (symbols : List Symbol) :
    Sound symbols (token lexicon symbols) := by
  unfold token
  split
  · exact sound_done [] .eof
  · exact sound_malformed rfl
  · exact (sound_tail lexicon _ _ _).cons

/-! ### Symbols passed byte by byte -/

/-- Blanks are plain. -/
lemma isPlain_of_mem_blanks {s : Symbol} (hs : s ∈ symbols.take (blanks symbols).count) :
    s.isPlain := by
  rw [blanks, done, ← List.prefix_iff_eq_take.1 (List.takeWhile_prefix _)] at hs
  have hblank := List.all_eq_true.1 List.all_takeWhile s hs
  obtain ⟨b, hb, hclass⟩ := (Option.any_eq_true _ _).1 hblank
  refine Symbol.isPlain_of_single? hb ?_
  rintro rfl
  cases of_decide_eq_true hclass

/-- So is what continues a numeral. -/
lemma isPlain_of_mem_numeral {seenPoint : Bool} {s : Symbol}
    (hs : s ∈ symbols.take (numeralLength seenPoint symbols)) : s.isPlain := by
  fun_induction numeralLength seenPoint symbols with
  | case1 | case4 => cases hs
  | case2 seenPoint s' ss h ih =>
    rcases List.mem_cons.1 hs with rfl | hs
    · rcases Bool.or_eq_true _ _ ▸ h with h | h
      · obtain ⟨b, hb, hdigit⟩ := (Option.any_eq_true _ _).1 h
        refine Symbol.isPlain_of_single? hb ?_
        rintro rfl
        cases hdigit
      · exact Symbol.isPlain_of_single? (of_decide_eq_true h) (by decide)
    · exact ih hs
  | case3 seenPoint s' ss _ h ih =>
    rcases List.mem_cons.1 hs with rfl | hs
    · simp only [Bool.and_eq_true, decide_eq_true_eq] at h
      exact Symbol.isPlain_of_single? h.1.1 (by decide)
    · exact ih hs

end Scan

/-! ### Kinds of tokens -/

/-- The keyword of a token is one of the lexicon's. -/
lemma Lexicon.mem_of_keyword? {l : Lexicon} {text : String} {t : Token}
    (h : l.keyword? text = some t) : (text, t) ∈ l.keywords := by
  obtain ⟨pre, post, hsplit, -⟩ := List.lookup_eq_some_iff.1 h
  rw [hsplit]
  exact List.mem_append_right pre List.mem_cons_self

/-- No character starts the end token. -/
lemma classOf_ne_eof (c : Nat) : classOf c ≠ .eof := by
  unfold classOf
  split
  · decide
  · split
    all_goals
      first
      | decide
      | split_ifs <;> decide

namespace Scan

@[simp] lemma outcome_shift (n : Nat) (s : Scan) : (s.shift n).outcome = s.outcome := rfl

lemma outcome_andThen {symbols : List Symbol} {n : Nat} {next : List Symbol → Scan} {t : Token}
    (h : (andThen symbols n next).outcome = .ok t) : (next (symbols.drop n)).outcome = .ok t := by
  simp only [andThen] at h
  split at h
  · cases h
  · exact h

lemma outcome_comment {symbols : List Symbol} {t : Token}
    (h : (comment symbols).outcome = .ok t) : t = .comment := by
  cases outcome_andThen h
  rfl

lemma outcome_string {symbols : List Symbol} {t : Token}
    (h : (string symbols).outcome = .ok t) : t = .string := by
  fun_induction string symbols with
  | case1 | case2 | case4 | case5 => cases h
  | case3 =>
    cases h
    rfl
  | case6 _ _ _ _ _ ih => exact ih h
  | case7 _ _ _ _ _ ih => exact ih h

lemma outcome_rawString {symbols : List Symbol} {t : Token}
    (h : (rawString symbols).outcome = .ok t) : t = .string := by
  fun_induction rawString symbols with
  | case1 | case2 => cases h
  | case3 =>
    cases h
    rfl
  | case4 _ _ _ _ ih => exact ih h

lemma outcome_quotedIdent {symbols : List Symbol} {t : Token}
    (h : (quotedIdent symbols).outcome = .ok t) : t = .ident := by
  fun_induction quotedIdent symbols with
  | case2 => cases h
  | case1 | case3 | case4 =>
    cases h
    rfl
  | case5 _ _ _ _ _ ih => exact ih h

lemma outcome_closeChar {symbols : List Symbol} {t : Token}
    (h : (closeChar symbols).outcome = .ok t) : t = .number := by
  have h := outcome_andThen h
  split at h
  · cases h
    rfl
  · cases h

lemma outcome_char {symbols : List Symbol} {t : Token}
    (h : (char symbols).outcome = .ok t) : t = .number := by
  unfold char at h
  split at h
  · cases h
  · cases h
  · split_ifs at h
    · cases h
    · split at h
      · cases h
      · cases h
      · exact outcome_closeChar h
    · exact outcome_closeChar h

lemma outcome_word {lexicon : Lexicon} {first : Symbol} {symbols : List Symbol} {t : Token}
    (h : (word lexicon first symbols).outcome = .ok t) :
    t = .ident ∨ ∃ text, lexicon.keyword? text = some t := by
  have h := outcome_andThen h
  split at h
  · next hk =>
    rw [outcome_comment h]
    obtain ⟨text, -, htext⟩ := Option.bind_eq_some_iff.1 hk
    exact .inr ⟨text, htext⟩
  · next token _ hk =>
    cases h
    obtain ⟨text, -, htext⟩ := Option.bind_eq_some_iff.1 hk
    exact .inr ⟨text, htext⟩
  · cases h
    exact .inl rfl

lemma outcome_operator {lexicon : Lexicon} {kind : Token} {first : Symbol} {symbols : List Symbol}
    {t : Token} (h : (operator lexicon kind first symbols).outcome = .ok t) :
    t = kind ∨ ∃ text, lexicon.keyword? text = some t := by
  simp only [operator] at h
  split at h
  · next n hn =>
    rw [outcome_shift] at h
    have hkeyword := List.find?_some hn
    obtain ⟨text, -, htext⟩ := Option.bind_eq_some_iff.1 (of_decide_eq_true hkeyword)
    rw [outcome_comment h]
    exact .inr ⟨text, htext⟩
  · have h := outcome_andThen h
    cases hk : keyword? lexicon (first :: run (fun c => (classOf c).isOperator) symbols) with
    | none =>
      rw [hk] at h
      cases h
      exact .inl rfl
    | some token =>
      rw [hk] at h
      cases h
      obtain ⟨text, -, htext⟩ := Option.bind_eq_some_iff.1 hk
      exact .inr ⟨text, htext⟩

/-- The end token is a keyword's or stands at the end. -/
lemma outcome_token_eof {lexicon : Lexicon} {symbols : List Symbol}
    (h : (token lexicon symbols).outcome = .ok .eof) :
    symbols = [] ∨ ∃ text, lexicon.keyword? text = some .eof := by
  unfold token at h
  split at h
  · exact .inl rfl
  · cases h
  · next v bs rest =>
    right
    rw [outcome_shift] at h
    unfold tail at h
    split at h
    · cases h
    · split at h
      · cases outcome_quotedIdent h
      · rcases outcome_word h with h | h
        · cases h
        · exact h
    · split at h
      · cases outcome_char h
      · cases h
    · cases outcome_string h
    · split at h
      · split at h
        · rw [outcome_shift] at h
          cases outcome_rawString h
        · cases h
      · cases h
    · split at h
      · rcases outcome_operator h with h | h
        · exact absurd h.symm (classOf_ne_eof v)
        · exact h
      · simp only [done, Except.ok.injEq] at h
        exact absurd h (classOf_ne_eof v)

end Scan

end ScriptGraph
