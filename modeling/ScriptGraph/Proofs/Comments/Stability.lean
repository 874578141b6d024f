import ScriptGraph.Proofs.Keywords

/-!
# What may follow a token

A token ends where the symbols after it do not go on with it, for which a scan looks two symbols
ahead at most. It ends there as well if nothing follows or a line feed does, since a line feed goes
on with no token that is not closed by then. So other symbols can be put in the place of what
follows a token.
-/

namespace ScriptGraph

namespace Scan

variable {lexicon : Lexicon} {symbols rest rest' : List Symbol} {n : Nat} {t : Token}

/-! ### Ends of lines -/

/-- Whether a symbol is a line feed. -/
def IsLineFeed (s : Symbol) : Prop := s.value? = some 0x0A ∧ s.IsSequence

/-- Whether the symbols are at the end of a line: a line feed comes next, or nothing does. -/
def AtLineEnd (symbols : List Symbol) : Prop := ∀ s, symbols.head? = some s → IsLineFeed s

/-- Whether a token that ends before some symbols ends before others as well: these start likewise,
or they are at the end of a line and the first ones go on with no numeral. -/
inductive Replaces (rest : List Symbol) : List Symbol → Prop
  | alike {rest' : List Symbol} (hhead : rest'.head? = rest.head?)
      (hsecond : rest'.tail.head?.any isDigit = rest.tail.head?.any isDigit) : Replaces rest rest'
  | lineEnd {rest' : List Symbol} (hdigit : rest.head?.any isDigit = false)
      (hend : AtLineEnd rest') : Replaces rest rest'

/-- Whether a condition on symbols does not hold of line feeds. -/
def ExcludesLineFeed (q : Symbol → Bool) : Prop := ∀ s, IsLineFeed s → q s = false

/-- A line feed of a single byte is that byte. -/
lemma IsLineFeed.eq_of_single? {s : Symbol} {b : UInt8} (h : IsLineFeed s)
    (hb : s.single? = some b) : b = 0x0A := by
  obtain ⟨hvalue, hseq⟩ := h
  obtain ⟨rfl, -⟩ := hseq.eq_of_single? hb
  exact UInt8.toNat_inj.1 (Option.some.inj hvalue)

lemma IsLineFeed.single?_ne {s : Symbol} {b : UInt8} (h : IsLineFeed s) (hb : b ≠ 0x0A) :
    s.single? ≠ some b :=
  fun hsingle => hb (h.eq_of_single? hsingle)

/-- A condition on bytes that does not hold of the line feed. -/
lemma excludesLineFeed_single {q : UInt8 → Bool} (hq : q 0x0A = false) :
    ExcludesLineFeed fun s => s.single?.any q := by
  intro s hs
  cases hb : s.single? with
  | none => simp [hb]
  | some b => simp [hb, hs.eq_of_single? hb, hq]

lemma excludesLineFeed_isDigit : ExcludesLineFeed isDigit := excludesLineFeed_single rfl

/-- A condition on code points that does not hold of the line feed. -/
lemma excludesLineFeed_value {p : Nat → Bool} (hp : p 0x0A = false) :
    ExcludesLineFeed fun s => s.value?.any p := by
  rintro s ⟨hvalue, -⟩
  simp [hvalue, hp]

lemma AtLineEnd.any {q : Symbol → Bool} (h : AtLineEnd symbols) (hq : ExcludesLineFeed q) :
    symbols.head?.any q = false := by
  cases hhead : symbols.head? with
  | none => rfl
  | some s => exact hq s (h s hhead)

namespace Replaces

/-- What does not go on with a token still does not. -/
lemma any {q : Symbol → Bool} (h : Replaces rest rest') (hq : ExcludesLineFeed q)
    (hrest : rest.head?.any q = false) : rest'.head?.any q = false := by
  cases h with
  | alike hhead _ => rwa [hhead]
  | lineEnd _ hend => exact hend.any hq

lemma any_isDigit (h : Replaces rest rest') :
    rest'.head?.any isDigit = rest.head?.any isDigit := by
  cases h with
  | alike hhead _ => rw [hhead]
  | lineEnd hdigit hend => rw [hdigit, hend.any excludesLineFeed_isDigit]

lemma startsMalformed (h : Replaces rest rest') (hrest : startsMalformed rest = false) :
    Scan.startsMalformed rest' = false := by
  have hiff (ss : List Symbol) :
      Scan.startsMalformed ss = ss.head?.any fun s => s.value?.isNone := by
    match ss with
    | [] | .malformed _ :: _ | .codePoint _ _ :: _ => rfl
  rw [hiff] at hrest ⊢
  apply h.any _ hrest
  rintro s ⟨hvalue, -⟩
  simp [hvalue]

/-- The symbols of a token can be put before both. -/
lemma append (h : Replaces rest rest') {passed : List Symbol} (hne : passed ≠ []) :
    Replaces (passed ++ rest) (passed ++ rest') := by
  match passed with
  | s :: [] => exact .alike rfl h.any_isDigit
  | s :: u :: passed => exact .alike rfl rfl

/-- What follows a comment can be put in the place of the comment. -/
lemma of_atLineEnd (h : Replaces rest rest') (hrest : AtLineEnd rest) : AtLineEnd rest' := by
  cases h with
  | alike hhead _ =>
    intro s hs
    exact hrest s (hhead ▸ hs)
  | lineEnd _ hend => exact hend

end Replaces

/-! ### Runs -/

lemma take_length_takeWhile (q : Symbol → Bool) (symbols : List Symbol) :
    symbols.take (symbols.takeWhile q).length = symbols.takeWhile q :=
  (List.prefix_iff_eq_take.1 (List.takeWhile_prefix q)).symm

lemma take_length_run (p : Nat → Bool) (symbols : List Symbol) :
    symbols.take (run p symbols).length = run p symbols :=
  take_length_takeWhile _ _

lemma any_of_mem_run {p : Nat → Bool} {s : Symbol} (hs : s ∈ run p symbols) :
    s.value?.any p = true :=
  List.mem_takeWhile_imp (p := fun s : Symbol => s.value?.any p) hs

/-- A run does not go on with the symbol at which it stops. -/
lemma any_drop_takeWhile (q : Symbol → Bool) (symbols : List Symbol) :
    (symbols.drop (symbols.takeWhile q).length).head?.any q = false := by
  have hsplit : symbols.takeWhile q ++ symbols.dropWhile q = symbols :=
    List.takeWhile_append_dropWhile
  have hdrop := congrArg (List.drop (symbols.takeWhile q).length) hsplit
  rw [List.drop_left] at hdrop
  have hhead := List.head?_dropWhile_not q symbols
  rw [← hdrop]
  cases hs : (symbols.dropWhile q).head? with
  | none => rfl
  | some s =>
    rw [hs] at hhead
    exact hhead

/-- A run that stops before some symbols stops before those that replace them. -/
lemma takeWhile_of_replaces {q : Symbol → Bool} (hq : ExcludesLineFeed q)
    (hn : (symbols.takeWhile q).length = n) (h : Replaces (symbols.drop n) rest') :
    (symbols.take n ++ rest').takeWhile q = symbols.takeWhile q := by
  subst hn
  have hall : ∀ s ∈ symbols.takeWhile q, q s = true := fun s => List.mem_takeWhile_imp
  have hstop := h.any hq (any_drop_takeWhile q symbols)
  have hnil : rest'.takeWhile q = [] := by
    cases rest' with
    | nil => rfl
    | cons s rest' => exact List.takeWhile_cons_of_neg (by simpa using hstop)
  rw [take_length_takeWhile, List.takeWhile_append_of_pos hall, hnil, List.append_nil]

/-! ### Tokens that are found -/

lemma shift_eq_done {k : Nat} {s : Scan} :
    s.shift k = done n t ↔ ∃ m, s = done m t ∧ n = k + m := by
  obtain ⟨count, outcome⟩ := s
  simp only [shift, done, mk.injEq]
  constructor
  · rintro ⟨rfl, rfl⟩
    exact ⟨count, ⟨rfl, rfl⟩, rfl⟩
  · rintro ⟨m, ⟨rfl, rfl⟩, rfl⟩
    exact ⟨rfl, rfl⟩

lemma andThen_eq_done {k : Nat} {next : List Symbol → Scan} :
    andThen symbols k next = done n t ↔
      startsMalformed (symbols.drop k) = false ∧
        ∃ m, next (symbols.drop k) = done m t ∧ n = k + m := by
  simp only [andThen]
  cases hmalformed : startsMalformed (symbols.drop k) with
  | true => simp [fail, done]
  | false => simp [shift_eq_done]

/-- Whether a token that a scan finds does not depend on what follows it. -/
def Closed (f : List Symbol → Scan) : Prop :=
  ∀ ⦃symbols n t⦄ (rest' : List Symbol), f symbols = done n t →
    f (symbols.take n ++ rest') = done n t

/-- Whether a token other than a comment that a scan finds is found as well before symbols that
replace those after it. -/
def Stable (f : List Symbol → Scan) : Prop :=
  ∀ ⦃symbols rest' n t⦄, f symbols = done n t → t ≠ .comment →
    Replaces (symbols.drop n) rest' → f (symbols.take n ++ rest') = done n t

lemma take_cons_append (s : Symbol) (rest rest' : List Symbol) (m : Nat) :
    (s :: rest).take (1 + m) ++ rest' = s :: (rest.take m ++ rest') := by
  rw [Nat.add_comm]
  rfl

/-! ### Literals -/

lemma closed_string : Closed string := by
  intro symbols n t rest' h
  fun_induction string symbols generalizing n with
  | case1 | case2 | case4 | case5 => cases h
  | case3 bs rest =>
    cases h
    rw [string.eq_def]
    rfl
  | case6 bs w ws rest _ ih =>
    obtain ⟨m, hm, rfl⟩ := shift_eq_done.1 h
    rw [Nat.add_comm, List.take_succ_cons, List.take_succ_cons, List.cons_append, List.cons_append,
      string.eq_def]
    exact shift_eq_done.2 ⟨m, ih hm, Nat.add_comm _ _⟩
  | case7 v bs rest hquote hescape ih =>
    obtain ⟨m, hm, rfl⟩ := shift_eq_done.1 h
    rw [take_cons_append, string.eq_def]
    simp only [if_neg hquote, if_neg hescape]
    exact shift_eq_done.2 ⟨m, ih hm, rfl⟩

lemma closed_rawString : Closed rawString := by
  intro symbols n t rest' h
  fun_induction rawString symbols generalizing n with
  | case1 | case2 => cases h
  | case3 =>
    cases h
    rfl
  | case4 v bs rest hquote ih =>
    obtain ⟨m, hm, rfl⟩ := shift_eq_done.1 h
    rw [take_cons_append, rawString, if_neg hquote]
    exact shift_eq_done.2 ⟨m, ih hm, rfl⟩

lemma closed_closeChar : Closed closeChar := by
  intro symbols n t rest' h
  obtain ⟨hmalformed, m, hm, rfl⟩ := andThen_eq_done.1 h
  rw [List.drop_zero] at hmalformed hm
  match symbols with
  | [] | .malformed _ :: _ => cases hm
  | .codePoint v bs :: rest =>
    split at hm
    · next hquote =>
      cases hm
      refine andThen_eq_done.2 ⟨rfl, 1, ?_, rfl⟩
      exact if_pos hquote
    · cases hm

lemma closed_char : Closed char := by
  intro symbols n t rest' h
  rcases symbols with _ | ⟨⟨v, bs⟩ | b, rest⟩
  · cases h
  · simp only [char] at h
    split_ifs at h with hquote hescape
    · cases h
    · rcases rest with _ | ⟨⟨w, ws⟩ | b, rest⟩
      · cases h
      · obtain ⟨m, hm, rfl⟩ := shift_eq_done.1 h
        rw [Nat.add_comm, List.take_succ_cons, List.take_succ_cons]
        simp only [List.cons_append, char, if_neg hquote, if_pos hescape]
        exact shift_eq_done.2 ⟨m, closed_closeChar rest' hm, Nat.add_comm _ _⟩
      · cases h
    · obtain ⟨m, hm, rfl⟩ := shift_eq_done.1 h
      rw [take_cons_append]
      simp only [char, if_neg hquote, if_neg hescape]
      exact shift_eq_done.2 ⟨m, closed_closeChar rest' hm, rfl⟩
  · cases h

/-- Whether a quoted identifier does not end before a symbol. -/
def continuesQuoted (s : Symbol) : Bool :=
  s.value?.all fun v => ¬(classOf v = .whitespace ∨ classOf v = .breakLine)

lemma excludesLineFeed_continuesQuoted : ExcludesLineFeed continuesQuoted := by
  rintro s ⟨hvalue, -⟩
  rw [continuesQuoted, hvalue]
  rfl

/-- A quoted identifier may end before a blank or a line break, or at the end. -/
lemma quotedIdent_eq_zero :
    quotedIdent symbols = done 0 .ident ↔ symbols.head?.any continuesQuoted = false := by
  match symbols with
  | [] => exact ⟨fun _ => rfl, fun _ => rfl⟩
  | .malformed b :: rest =>
    constructor
    · intro h
      cases h
    · intro h
      cases h
  | .codePoint v bs :: rest =>
    rw [quotedIdent, List.head?_cons, Option.any_some, continuesQuoted, Symbol.value?,
      Option.all_some, decide_eq_false_iff_not, not_not]
    by_cases hblank : classOf v = .whitespace ∨ classOf v = .breakLine
    · simp [hblank]
    · simp only [hblank, if_false, iff_false]
      intro h
      split at h
      · cases h
      · obtain ⟨m, -, hm⟩ := shift_eq_done.1 h
        omega

lemma stable_quotedIdent : Stable quotedIdent := by
  have hends {rest rest' : List Symbol} (hfound : quotedIdent rest = done 0 .ident)
      (h : Replaces rest rest') : quotedIdent rest' = done 0 .ident := by
    apply quotedIdent_eq_zero.2
    exact h.any excludesLineFeed_continuesQuoted (quotedIdent_eq_zero.1 hfound)
  intro symbols rest' n t h _ hreplaces
  fun_induction quotedIdent symbols generalizing n with
  | case1 =>
    cases h
    exact hends rfl hreplaces
  | case2 => cases h
  | case3 v bs rest hblank =>
    cases h
    apply hends _ hreplaces
    rw [List.drop_zero, quotedIdent, if_pos hblank]
  | case4 bs rest hblank =>
    cases h
    rfl
  | case5 v bs rest hblank hquote ih =>
    obtain ⟨m, hm, rfl⟩ := shift_eq_done.1 h
    rw [take_cons_append, quotedIdent, if_neg hblank, if_neg hquote]
    rw [Nat.add_comm] at hreplaces
    exact shift_eq_done.2 ⟨m, ih hm hreplaces, rfl⟩

/-- A numeral goes on with a point only if a digit follows it. -/
lemma numeralLength_cons_eq_zero {seenPoint : Bool} {s : Symbol} :
    numeralLength seenPoint (s :: rest) = 0 ↔
      (isDigit s || s.single? = some 0x5F) = false ∧
        (s.single? = some 0x2E && !seenPoint && rest.head?.any isDigit) = false := by
  rw [numeralLength]
  by_cases hdigit : (isDigit s || s.single? = some 0x5F) = true
  · rw [if_pos hdigit, hdigit]
    simp
  · rw [if_neg hdigit]
    rw [Bool.not_eq_true] at hdigit
    cases hpoint : s.single? = some 0x2E && !seenPoint && rest.head?.any isDigit with
    | true => simp
    | false => simp [hdigit]

lemma numeralLength_eq_zero {seenPoint : Bool} (h : Replaces rest rest')
    (hzero : numeralLength seenPoint rest = 0) : numeralLength seenPoint rest' = 0 := by
  cases rest' with
  | nil => rfl
  | cons s rest' =>
    cases h with
    | alike hhead hsecond =>
      obtain ⟨rest, rfl⟩ := List.head?_eq_some_iff.1 hhead.symm
      rw [List.tail_cons, List.tail_cons] at hsecond
      rw [numeralLength_cons_eq_zero] at hzero ⊢
      rwa [hsecond]
    | lineEnd _ hend =>
      have hs : IsLineFeed s := hend s rfl
      have hdigit := excludesLineFeed_isDigit s hs
      have hseparator : s.single? ≠ some 0x5F := hs.single?_ne (by decide)
      have hpoint : s.single? ≠ some 0x2E := hs.single?_ne (by decide)
      rw [numeralLength_cons_eq_zero]
      simp [hdigit, hseparator, hpoint]

lemma numeralLength_of_replaces {seenPoint : Bool} (hn : numeralLength seenPoint symbols = n)
    (h : Replaces (symbols.drop n) rest') :
    numeralLength seenPoint (symbols.take n ++ rest') = n := by
  fun_induction numeralLength seenPoint symbols generalizing n with
  | case1 seenPoint =>
    subst hn
    exact numeralLength_eq_zero h rfl
  | case2 seenPoint s rest hdigit ih =>
    subst hn
    rw [List.take_succ_cons, List.cons_append, numeralLength, if_pos hdigit, ih rfl h]
  | case3 seenPoint s rest hdigit hpoint ih =>
    subst hn
    have hpoint' : (s.single? = some 0x2E && !seenPoint &&
        (rest.take (numeralLength true rest) ++ rest').head?.any isDigit) = true := by
      rw [Bool.and_eq_true] at hpoint ⊢
      refine ⟨hpoint.1, ?_⟩
      cases rest with
      | nil => cases hpoint.2
      | cons d rest =>
        have hd : (isDigit d || d.single? = some 0x5F) = true := by
          rw [show isDigit d = true from hpoint.2, Bool.true_or]
        rw [numeralLength, if_pos hd]
        exact hpoint.2
    rw [List.take_succ_cons, List.cons_append, numeralLength, if_neg hdigit, if_pos hpoint',
      ih rfl h]
  | case4 seenPoint s rest hdigit hpoint =>
    subst hn
    apply numeralLength_eq_zero h
    rw [List.drop_zero, numeralLength, if_neg hdigit, if_neg hpoint]

lemma stable_numeral (seenPoint : Bool) :
    Stable fun symbols => done (numeralLength seenPoint symbols) .number := by
  intro symbols rest' n t h _ hreplaces
  cases h
  exact congrArg (done · .number) (numeralLength_of_replaces rfl hreplaces)

/-! ### Blanks, words and operators -/

lemma stable_blanks : Stable blanks := by
  intro symbols rest' n t h _ hreplaces
  cases h
  rw [blanks, takeWhile_of_replaces (excludesLineFeed_single rfl) rfl hreplaces]

lemma run_of_replaces {p : Nat → Bool} (hp : p 0x0A = false) (hn : (run p symbols).length = n)
    (h : Replaces (symbols.drop n) rest') : run p (symbols.take n ++ rest') = run p symbols :=
  takeWhile_of_replaces (excludesLineFeed_value hp) hn h

/-- A word that is no comment is a run of its symbols. -/
lemma word_eq_done {first : Symbol} (ht : t ≠ .comment) :
    word lexicon first symbols = done n t ↔
      (run isWordPart symbols).length = n ∧ startsMalformed (symbols.drop n) = false ∧
        (keyword? lexicon (first :: run isWordPart symbols)).getD .ident = t := by
  rw [word, andThen_eq_done]
  constructor
  · rintro ⟨hmalformed, m, hm, rfl⟩
    split at hm
    · exact absurd (outcome_comment (congrArg outcome hm)) ht
    · next hkeyword =>
      cases hm
      rw [hkeyword]
      exact ⟨rfl, hmalformed, rfl⟩
    · next hkeyword =>
      cases hm
      rw [hkeyword]
      exact ⟨rfl, hmalformed, rfl⟩
  · rintro ⟨rfl, hmalformed, rfl⟩
    refine ⟨hmalformed, 0, ?_, rfl⟩
    split
    · next hkeyword =>
      rw [hkeyword] at ht
      exact absurd rfl ht
    · next hkeyword =>
      rw [hkeyword]
      rfl
    · next hkeyword =>
      rw [hkeyword]
      rfl

/-- So is an operator, in which no comment starts. -/
lemma operator_eq_done {kind : Token} {first : Symbol} (ht : t ≠ .comment) :
    operator lexicon kind first symbols = done n t ↔
      let part := run (fun c => (classOf c).isOperator) symbols
      commentMark? lexicon (first :: part) = none ∧ part.length = n ∧
        startsMalformed (symbols.drop n) = false ∧
        (keyword? lexicon (first :: part)).getD kind = t := by
  simp only [operator]
  split
  · next k hmark =>
    simp only [hmark, reduceCtorEq, false_and, iff_false]
    intro h
    obtain ⟨m, hm, -⟩ := shift_eq_done.1 h
    exact ht (outcome_comment (congrArg outcome hm))
  · next hmark =>
    rw [andThen_eq_done]
    constructor
    · rintro ⟨hmalformed, m, hm, rfl⟩
      cases hm
      exact ⟨hmark, rfl, hmalformed, rfl⟩
    · rintro ⟨-, rfl, hmalformed, rfl⟩
      exact ⟨hmalformed, 0, rfl, rfl⟩

lemma length_run_le (p : Nat → Bool) (symbols : List Symbol) :
    (run p symbols).length ≤ symbols.length :=
  (List.takeWhile_prefix _).length_le

lemma stable_word (first : Symbol) : Stable (word lexicon first) := by
  intro symbols rest' n t h ht hreplaces
  obtain ⟨hlength, hmalformed, hkeyword⟩ := (word_eq_done ht).1 h
  have hle : n ≤ symbols.length := hlength ▸ length_run_le _ _
  rw [word_eq_done ht, run_of_replaces rfl hlength hreplaces,
    List.drop_left' (List.length_take_of_le hle)]
  exact ⟨hlength, hreplaces.startsMalformed hmalformed, hkeyword⟩

lemma stable_operator (kind : Token) (first : Symbol) : Stable (operator lexicon kind first) := by
  intro symbols rest' n t h ht hreplaces
  obtain ⟨hmark, hlength, hmalformed, hkeyword⟩ := (operator_eq_done ht).1 h
  have hle : n ≤ symbols.length := hlength ▸ length_run_le _ _
  rw [operator_eq_done ht, run_of_replaces rfl hlength hreplaces,
    List.drop_left' (List.length_take_of_le hle)]
  exact ⟨hmark, hlength, hreplaces.startsMalformed hmalformed, hkeyword⟩

/-! ### Any token -/

/-- Any other character is a token of its own, but for the one that starts a raw string. -/
lemma tail_other {v : Nat} (hv : classOf v = .other) (first : Symbol) (rest : List Symbol) :
    tail lexicon first v rest =
      if rest.head?.any (fun s => v = 0x40 ∧ s.single? = some 0x22) then
        (rawString rest.tail).shift 1
      else done 0 .other := by
  simp only [tail, hv]
  cases rest with
  | nil => rfl
  | cons s rest => simp

lemma stable_other {v : Nat} (hv : classOf v = .other) (first : Symbol) :
    Stable (tail lexicon first v) := by
  intro symbols rest' n t h _ hreplaces
  rw [tail_other hv] at h ⊢
  split at h
  · next hquote =>
    cases symbols with
    | nil => cases hquote
    | cons s rest =>
      obtain ⟨m, hm, rfl⟩ := shift_eq_done.1 h
      rw [take_cons_append]
      have hquote' : ((s :: (rest.take m ++ rest')).head?.any fun s =>
          v = 0x40 ∧ s.single? = some 0x22) = true := hquote
      rw [if_pos hquote']
      exact shift_eq_done.2 ⟨m, closed_rawString rest' hm, rfl⟩
  · next hquote =>
    cases h
    have hexcludes : ExcludesLineFeed fun s => v = 0x40 ∧ s.single? = some 0x22 := by
      intro s hs
      have hne : s.single? ≠ some 0x22 := hs.single?_ne (by decide)
      simp [hne]
    have hquote' := hreplaces.any hexcludes (Bool.not_eq_true _ ▸ hquote)
    rw [List.take_zero, List.nil_append, hquote']
    rfl

lemma stable_tail (first : Symbol) (v : Nat) : Stable (tail lexicon first v) := by
  by_cases hother : classOf v = .other
  · exact stable_other hother first
  intro symbols rest' n t h ht hreplaces
  simp only [tail] at h ⊢
  split at h
  · exact stable_blanks h ht hreplaces
  · split_ifs at h ⊢
    · exact stable_quotedIdent h ht hreplaces
    · exact stable_word first h ht hreplaces
  · split_ifs at h ⊢
    · exact closed_char rest' h
    · exact stable_numeral false h ht hreplaces
  · exact closed_string rest' h
  · next hv => exact absurd hv hother
  · split_ifs at h ⊢
    · exact stable_operator _ first h ht hreplaces
    · cases h
      rfl

/-- A token other than a comment is found as well before symbols that replace those after it. -/
theorem token_of_replaces (h : token lexicon symbols = done n t) (hne : symbols ≠ [])
    (ht : t ≠ .comment) (hreplaces : Replaces (symbols.drop n) rest') :
    token lexicon (symbols.take n ++ rest') = done n t := by
  match symbols with
  | [] => exact absurd rfl hne
  | .malformed b :: rest => cases h
  | .codePoint v bs :: rest =>
    obtain ⟨m, hm, rfl⟩ := shift_eq_done.1 h
    rw [take_cons_append]
    rw [Nat.add_comm] at hreplaces
    exact shift_eq_done.2 ⟨m, stable_tail _ v hm ht hreplaces, rfl⟩

end Scan

end ScriptGraph
