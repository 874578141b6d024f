import ScriptGraph.Lexeme
import ScriptGraph.Proofs.Encoding
import ScriptGraph.Proofs.Numbers
import ScriptGraph.Proofs.Scanning

/-!
# Forms of literals

The scanner finds literals by their code points: a literal has a form, with its delimiters, and the
form says what it denotes. Every literal token that the scanner finds has such a form.
-/

namespace ScriptGraph

/-! ### What literals denote -/

/-- The text of some code points. -/
def textOf (cs : List Nat) : String := String.ofList (cs.map Char.ofNat)

/-- Between its quotes, a string literal denotes the code points of its content. -/
inductive Escaped : List Nat → List Nat → Prop
  | nil : Escaped [] []
  | plain {c : Nat} {inner content : List Nat} (hquote : c ≠ 0x22) (hescape : c ≠ 0x5C)
      (h : Escaped inner content) : Escaped (c :: inner) (c :: content)
  | escape (c : Nat) {inner content : List Nat} (h : Escaped inner content) :
      Escaped (0x5C :: c :: inner) (Lexeme.unescape c :: content)

/-- Whether a code point is a decimal digit. -/
def IsDigit (c : Nat) : Prop := 0x30 ≤ c ∧ c ≤ 0x39

/-- A digit with digits and separators after it. -/
inductive IsDigits : List Nat → Prop
  | intro {c : Nat} {cs : List Nat} (hc : IsDigit c) (hcs : ∀ d ∈ cs, IsDigit d ∨ d = 0x5F) :
      IsDigits (c :: cs)

/-- A numeral consists of digits, and a point and more digits may follow them. -/
inductive IsNumeral : List Nat → Prop
  | whole {cs : List Nat} (hcs : IsDigits cs) : IsNumeral cs
  | point {cs ds : List Nat} (hcs : IsDigits cs) (hds : IsDigits ds) :
      IsNumeral (cs ++ 0x2E :: ds)

/-- What a literal token denotes by its code points. A numeral denotes some number. -/
inductive Denotes : Token → List Nat → Literal → Prop
  | string {inner content : List Nat} (h : Escaped inner content) :
      Denotes .string (0x22 :: (inner ++ [0x22])) (.string (textOf content))
  | rawString {inner : List Nat} (h : 0x22 ∉ inner) :
      Denotes .string (0x40 :: 0x22 :: (inner ++ [0x22])) (.string (textOf inner))
  | char {c : Nat} (hquote : c ≠ 0x27) (hescape : c ≠ 0x5C) :
      Denotes .number [0x27, c, 0x27] (.number (.ofNat c))
  | escapedChar (c : Nat) :
      Denotes .number [0x27, 0x5C, c, 0x27] (.number (.ofNat (Lexeme.unescape c)))
  | numeral {cs : List Nat} {n : Number} (h : IsNumeral cs) (hn : n ≠ .nan) :
      Denotes .number cs (.number n)
  | openIdent {inner : List Nat} (h : 0x60 ∉ inner) :
      Denotes .ident (0x60 :: inner) (.string (textOf inner))
  | closedIdent {inner : List Nat} (h : 0x60 ∉ inner) :
      Denotes .ident (0x60 :: (inner ++ [0x60])) (.string (textOf inner))

/-- Whether a token with the given code points is a literal: a string, a number or a quoted
identifier. -/
def IsLiteral (t : Token) (cs : List Nat) : Prop :=
  t = .string ∨ t = .number ∨ t = .ident ∧ cs.head? = some 0x60

lemma IsLiteral.of_ne {t : Token} {cs : List Nat} (h : IsLiteral t cs)
    (hstring : t ≠ .string) (hnumber : t ≠ .number) : t = .ident ∧ cs.head? = some 0x60 := by
  rcases h with h | h | h
  · exact absurd h hstring
  · exact absurd h hnumber
  · exact h

/-! ### Classes and keywords -/

lemma lt_of_classOf {v : Nat} (h : classOf v ≠ .other) : v < 0x80 := by
  refine Nat.not_le.1 fun hle => h ?_
  rw [classOf, if_pos hle]

/-- Strings start with a quote, numbers with an apostrophe or a digit. -/
lemma of_classOf {v : Nat} :
    (classOf v = .string → v = 0x22) ∧ (classOf v = .number → v = 0x27 ∨ IsDigit v) := by
  have hascii : ∀ v < 0x80, (classOf v = .string → v = 0x22) ∧
      (classOf v = .number → v = 0x27 ∨ 0x30 ≤ v ∧ v ≤ 0x39) := by decide +kernel
  constructor
  · intro h
    exact (hascii v (lt_of_classOf (h ▸ Token.noConfusion))).1 h
  · intro h
    exact (hascii v (lt_of_classOf (h ▸ Token.noConfusion))).2 h

/-- No keyword of the language is a literal. -/
lemma not_isLiteral_of_keyword? {text : String} {t : Token} {cs : List Nat}
    (h : Lexicon.standard.keyword? text = some t) : ¬IsLiteral t cs := by
  have hall : ∀ k ∈ Lexicon.standard.keywords, k.2 ≠ .string ∧ k.2 ≠ .number ∧ k.2 ≠ .ident := by
    decide
  obtain ⟨hstring, hnumber, hident⟩ := hall _ (Lexicon.mem_of_keyword? h)
  rintro (rfl | rfl | ⟨rfl, -⟩)
  · exact hstring rfl
  · exact hnumber rfl
  · exact hident rfl

/-! ### What scans pass -/

namespace Scan

open ScriptGraph.Symbol (codePoints)

/-- The code points that a scan of some symbols has passed. -/
def passed (symbols : List Symbol) (s : Scan) : List Nat := codePoints (symbols.take s.count)

variable {symbols rest : List Symbol} {t : Token} {v : Nat} {bs : List UInt8}

@[simp] lemma passed_shift_one (s : Scan) :
    passed (.codePoint v bs :: rest) (s.shift 1) = v :: passed rest s := by
  rw [passed, Scan.shift, Nat.add_comm]
  rfl

@[simp] lemma passed_shift_two {w : Nat} {ws : List UInt8} (s : Scan) :
    passed (.codePoint v bs :: .codePoint w ws :: rest) (s.shift 2) = v :: w :: passed rest s := by
  rw [passed, Scan.shift, Nat.add_comm]
  rfl

@[simp] lemma passed_done_succ (n : Nat) (t : Token) :
    passed (.codePoint v bs :: rest) (done (n + 1) t) = v :: passed rest (done n t) := rfl

lemma string_form (h : (string symbols).outcome = .ok t) :
    ∃ inner content, passed symbols (string symbols) = inner ++ [0x22] ∧ Escaped inner content := by
  fun_induction string symbols with
  | case1 | case2 | case4 | case5 => cases h
  | case3 => exact ⟨[], [], rfl, .nil⟩
  | case6 bs w ws rest _ ih =>
    obtain ⟨inner, content, hpassed, hescaped⟩ := ih h
    refine ⟨0x5C :: w :: inner, _, ?_, .escape w hescaped⟩
    rw [passed_shift_two, hpassed]
    rfl
  | case7 v bs rest hquote hescape ih =>
    obtain ⟨inner, content, hpassed, hescaped⟩ := ih h
    refine ⟨v :: inner, _, ?_, .plain hquote hescape hescaped⟩
    rw [passed_shift_one, hpassed]
    rfl

lemma rawString_form (h : (rawString symbols).outcome = .ok t) :
    ∃ inner, passed symbols (rawString symbols) = inner ++ [0x22] ∧ 0x22 ∉ inner := by
  fun_induction rawString symbols with
  | case1 | case2 => cases h
  | case3 => exact ⟨[], rfl, List.not_mem_nil⟩
  | case4 v bs rest hquote ih =>
    obtain ⟨inner, hpassed, hinner⟩ := ih h
    refine ⟨v :: inner, ?_, List.not_mem_cons_of_ne_of_not_mem (Ne.symm hquote) hinner⟩
    rw [passed_shift_one, hpassed]
    rfl

lemma quotedIdent_form (h : (quotedIdent symbols).outcome = .ok t) :
    ∃ inner, 0x60 ∉ inner ∧ (passed symbols (quotedIdent symbols) = inner ∨
      passed symbols (quotedIdent symbols) = inner ++ [0x60]) := by
  fun_induction quotedIdent symbols with
  | case2 => cases h
  | case1 | case3 => exact ⟨[], List.not_mem_nil, .inl rfl⟩
  | case4 => exact ⟨[], List.not_mem_nil, .inr rfl⟩
  | case5 v bs rest _ hquote ih =>
    obtain ⟨inner, hinner, hpassed⟩ := ih h
    refine ⟨v :: inner, List.not_mem_cons_of_ne_of_not_mem (Ne.symm hquote) hinner, ?_⟩
    rw [passed_shift_one]
    rcases hpassed with hpassed | hpassed
    · exact .inl (congrArg (v :: ·) hpassed)
    · exact .inr (congrArg (v :: ·) hpassed)

lemma closeChar_form (h : (closeChar symbols).outcome = .ok t) :
    passed symbols (closeChar symbols) = [0x27] := by
  match symbols with
  | [] | .malformed _ :: _ => cases h
  | .codePoint v bs :: rest =>
    by_cases hv : v = 0x27
    · subst hv
      rfl
    · simp [closeChar, andThen, startsMalformed, Symbol.isValue, Symbol.value?, hv, Scan.shift,
        fail] at h

lemma char_form (h : (char symbols).outcome = .ok t) :
    (∃ c, c ≠ 0x27 ∧ c ≠ 0x5C ∧ passed symbols (char symbols) = [c, 0x27]) ∨
      ∃ c, passed symbols (char symbols) = [0x5C, c, 0x27] := by
  match symbols with
  | [] | .malformed _ :: _ => cases h
  | .codePoint v bs :: rest =>
    simp only [char] at h ⊢
    split_ifs at h ⊢ with hquote hescape
    · cases h
    · right
      match rest with
      | [] | .malformed _ :: _ => cases h
      | .codePoint w ws :: rest =>
        refine ⟨w, ?_⟩
        simp only [passed_shift_two, closeChar_form h, hescape]
    · left
      refine ⟨v, hquote, hescape, ?_⟩
      rw [passed_shift_one, closeChar_form h]

lemma exists_of_single? {s : Symbol} {b : UInt8} (hseq : s.value?.isSome → s.IsSequence)
    (h : s.single? = some b) : s = .codePoint b.toNat [b] :=
  ((hseq (Symbol.isSome_value?_of_single? h)).eq_of_single? h).1

lemma exists_of_isDigit {s : Symbol} (hseq : s.value?.isSome → s.IsSequence)
    (h : isDigit s = true) : ∃ c bs, s = .codePoint c bs ∧ IsDigit c := by
  cases hb : s.single? with
  | none =>
    rw [isDigit, hb] at h
    cases h
  | some b =>
    simp only [isDigit, hb, Option.any_some, Bool.and_eq_true, decide_eq_true_eq] at h
    exact ⟨_, _, exists_of_single? hseq hb, h⟩

/-- What a numeral goes on with: digits and separators, and a point with more digits. -/
lemma numeral_form {seenPoint : Bool} {symbols : List Symbol}
    (hseq : ∀ s ∈ symbols, s.value?.isSome → s.IsSequence) :
    ∃ cs, (∀ d ∈ cs, IsDigit d ∨ d = 0x5F) ∧
      (passed symbols (done (numeralLength seenPoint symbols) .number) = cs ∨
        seenPoint = false ∧ ∃ ds, IsDigits ds ∧
          passed symbols (done (numeralLength seenPoint symbols) .number) = cs ++ 0x2E :: ds) := by
  fun_induction numeralLength seenPoint symbols with
  | case1 => exact ⟨[], by simp, .inl rfl⟩
  | case2 seenPoint s rest h ih =>
    obtain ⟨hs, hrest⟩ := List.forall_mem_cons.1 hseq
    obtain ⟨cs, hcs, hpassed⟩ := ih hrest
    obtain ⟨c, bs, rfl, hc⟩ : ∃ c bs, s = .codePoint c bs ∧ (IsDigit c ∨ c = 0x5F) := by
      rcases Bool.or_eq_true _ _ ▸ h with h | h
      · obtain ⟨c, bs, hs, hc⟩ := exists_of_isDigit hs h
        exact ⟨c, bs, hs, .inl hc⟩
      · exact ⟨_, _, exists_of_single? hs (of_decide_eq_true h), .inr rfl⟩
    refine ⟨c :: cs, List.forall_mem_cons.2 ⟨hc, hcs⟩, ?_⟩
    rw [passed_done_succ]
    rcases hpassed with hpassed | ⟨hseen, ds, hds, hpassed⟩
    · exact .inl (congrArg (c :: ·) hpassed)
    · exact .inr ⟨hseen, ds, hds, congrArg (c :: ·) hpassed⟩
  | case3 seenPoint s rest _ h ih =>
    obtain ⟨hs, hrest⟩ := List.forall_mem_cons.1 hseq
    simp only [Bool.and_eq_true, decide_eq_true_eq, Bool.not_eq_true'] at h
    obtain ⟨⟨hpoint, hseen⟩, hdigit⟩ := h
    obtain ⟨ds, hds, hpassed⟩ := ih hrest
    rcases hpassed with hpassed | ⟨hfalse, -⟩
    · refine ⟨[], by simp, .inr ⟨hseen, ds, ?_, ?_⟩⟩
      · cases rest with
        | nil => cases hdigit
        | cons r rest =>
          obtain ⟨c, bs, rfl, hc⟩ := exists_of_isDigit (List.forall_mem_cons.1 hrest).1 hdigit
          rw [List.head?_cons, Option.any_some] at hdigit
          rw [numeralLength, hdigit, Bool.true_or, if_pos rfl, passed_done_succ] at hpassed
          subst hpassed
          exact ⟨hc, (List.forall_mem_cons.1 hds).2⟩
      · rw [exists_of_single? hs hpoint, passed_done_succ, hpassed]
        rfl
    · cases hfalse
  | case4 => exact ⟨[], by simp, .inl rfl⟩

lemma denotes_ident (h : (quotedIdent rest).outcome = .ok t) :
    ∃ value, Denotes t (0x60 :: passed rest (quotedIdent rest)) value := by
  obtain ⟨inner, hinner, hpassed | hpassed⟩ := quotedIdent_form h
  · rw [outcome_quotedIdent h, hpassed]
    exact ⟨_, .openIdent hinner⟩
  · rw [outcome_quotedIdent h, hpassed]
    exact ⟨_, .closedIdent hinner⟩

lemma denotes_char (h : (char rest).outcome = .ok t) :
    ∃ value, Denotes t (0x27 :: passed rest (char rest)) value := by
  rcases char_form h with ⟨c, hquote, hescape, hpassed⟩ | ⟨c, hpassed⟩
  · rw [outcome_char h, hpassed]
    exact ⟨_, .char hquote hescape⟩
  · rw [outcome_char h, hpassed]
    exact ⟨_, .escapedChar c⟩

lemma denotes_numeral (hseq : ∀ s ∈ rest, s.value?.isSome → s.IsSequence) (hv : IsDigit v) :
    ∃ value,
      Denotes .number (v :: passed rest (done (numeralLength false rest) .number)) value := by
  have hne := Number.ofNat_ne_nan 0
  obtain ⟨cs, hcs, hpassed | ⟨-, ds, hds, hpassed⟩⟩ := numeral_form hseq
  · rw [hpassed]
    exact ⟨_, .numeral (.whole ⟨hv, hcs⟩) hne⟩
  · rw [hpassed]
    exact ⟨_, .numeral (.point ⟨hv, hcs⟩ hds) hne⟩

lemma denotes_string (h : (string rest).outcome = .ok t) :
    ∃ value, Denotes t (0x22 :: passed rest (string rest)) value := by
  obtain ⟨inner, content, hpassed, hescaped⟩ := string_form h
  rw [outcome_string h, hpassed]
  exact ⟨_, .string hescaped⟩

lemma denotes_rawString (h : (rawString rest).outcome = .ok t) :
    ∃ value, Denotes t (0x40 :: 0x22 :: passed rest (rawString rest)) value := by
  obtain ⟨inner, hpassed, hinner⟩ := rawString_form h
  rw [outcome_rawString h, hpassed]
  exact ⟨_, .rawString hinner⟩

lemma denotes_tail (hseq : ∀ s ∈ rest, s.value?.isSome → s.IsSequence) {first : Symbol} {s : Scan}
    (hs : tail .standard first v rest = s) (h : s.outcome = .ok t)
    (hliteral : IsLiteral t (v :: passed rest s)) :
    ∃ value, Denotes t (v :: passed rest s) value := by
  unfold tail at hs
  split at hs
  · subst hs
    cases h
    cases (hliteral.of_ne nofun nofun).1
  · split_ifs at hs with hv
    · subst hs hv
      exact denotes_ident h
    · subst hs
      rcases outcome_word h with rfl | ⟨text, htext⟩
      · obtain ⟨-, hhead⟩ := hliteral.of_ne nofun nofun
        exact absurd (Option.some.inj hhead) hv
      · exact absurd hliteral (not_isLiteral_of_keyword? htext)
  · next hclass =>
    split_ifs at hs with hv
    · subst hs hv
      exact denotes_char h
    · subst hs
      cases h
      exact denotes_numeral hseq ((of_classOf.2 hclass).resolve_left hv)
  · next hclass =>
    subst hs
    obtain rfl := of_classOf.1 hclass
    exact denotes_string h
  · match rest with
    | [] =>
      subst hs
      cases h
      cases (hliteral.of_ne nofun nofun).1
    | q :: rest =>
      simp only at hs
      split_ifs at hs with hv
      · obtain ⟨rfl, hquote⟩ := hv
        have hq : q = .codePoint 0x22 [0x22] :=
          exists_of_single? (List.forall_mem_cons.1 hseq).1 hquote
        subst hs hq
        rw [passed_shift_one]
        exact denotes_rawString h
      · subst hs
        cases h
        cases (hliteral.of_ne nofun nofun).1
  · next hwhitespace hident hnumber hstring hother =>
    split_ifs at hs
    · subst hs
      rcases outcome_operator h with rfl | ⟨text, htext⟩
      · exact absurd (hliteral.of_ne hstring hnumber).1 hident
      · exact absurd hliteral (not_isLiteral_of_keyword? htext)
    · subst hs
      cases h
      exact absurd (hliteral.of_ne hstring hnumber).1 hident

/-- A literal that the scanner finds has a form by which it denotes a value. -/
theorem denotes_token {symbols : List Symbol}
    (hseq : ∀ s ∈ symbols, s.value?.isSome → s.IsSequence)
    (h : (token .standard symbols).outcome = .ok t)
    (hliteral : IsLiteral t (passed symbols (token .standard symbols))) :
    ∃ value, Denotes t (passed symbols (token .standard symbols)) value := by
  match symbols with
  | [] =>
    cases h
    cases (hliteral.of_ne nofun nofun).1
  | .malformed b :: rest => cases h
  | .codePoint v bs :: rest =>
    simp only [token, passed_shift_one] at hliteral ⊢
    exact denotes_tail (List.forall_mem_cons.1 hseq).2 rfl h hliteral

/-- The sign that opens a raw string comes before a quote of a single byte. -/
lemma quote_of_string {symbols : List Symbol} {o q : Symbol}
    (hseq : ∀ s ∈ symbols, s.value?.isSome → s.IsSequence)
    (h : (token .standard symbols).outcome = .ok .string) (hsymbols : symbols = o :: q :: rest)
    (ho : o.value? = some 0x40) : q = .codePoint 0x22 [0x22] := by
  subst hsymbols
  cases o with
  | malformed b => cases ho
  | codePoint v bs =>
    obtain rfl : v = 0x40 := Option.some.inj ho
    have hclass : classOf 0x40 = .other := by decide
    by_cases hquote : q.single? = some 0x22
    · obtain ⟨-, hseq⟩ := List.forall_mem_cons.1 hseq
      exact exists_of_single? (List.forall_mem_cons.1 hseq).1 hquote
    · simp [token, tail, hclass, hquote, done] at h

end Scan

end ScriptGraph
