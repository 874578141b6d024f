import ScriptGraph.Proofs.Codec
import ScriptGraph.Proofs.Literals

/-!
# Written literals

A text that is written code point by code point is read as the shortest symbols of its code points,
whatever follows it. Where a quoted literal is written in this way, the scanner finds just this
literal.
-/

namespace ScriptGraph

open ScriptGraph.Symbol (codePoint codePoints spell)

/-! ### Symbols of written text -/

namespace Symbol

/-- A code point with its shortest sequence. -/
def shortest (c : Nat) : Symbol := codePoint c (CodePoint.encode c)

variable {cs : List Nat}

/-- Text made of encoded code points has their shortest symbols. -/
lemma decode_encode (hcs : ∀ c ∈ cs, c < 0x80000000) (rest : List UInt8) :
    decode (cs.flatMap CodePoint.encode ++ rest) = cs.map shortest ++ decode rest := by
  induction cs with
  | nil => rfl
  | cons c cs ih =>
    obtain ⟨hc, hcs⟩ := List.forall_mem_cons.1 hcs
    have hlen := CodePoint.length_encode c
    rw [List.flatMap_cons, List.append_assoc, decode_of_some (CodePoint.decode?_encode_append hc _),
      List.take_left' hlen, List.drop_left' hlen, ih hcs]
    rfl

lemma spell_shortest (cs : List Nat) :
    spell (cs.map shortest) = cs.flatMap CodePoint.encode := by
  rw [spell, List.flatMap_map]
  rfl

lemma codePoints_shortest (cs : List Nat) : codePoints (cs.map shortest) = cs := by
  induction cs with
  | nil => rfl
  | cons c cs ih => exact congrArg (c :: ·) ih

lemma isSequence_shortest {c : Nat} (hc : c < 0x80000000) : (shortest c).IsSequence := by
  have hdecode := CodePoint.decode?_encode_append hc []
  rwa [List.append_nil, ← CodePoint.length_encode] at hdecode

lemma isShortest_shortest (c : Nat) : (shortest c).IsShortest := CodePoint.length_encode c

end Symbol

/-- Only four characters stand for others behind a backslash. -/
lemma Lexeme.unescape_eq_self {c : Nat} (h : c ∉ [0x6E, 0x72, 0x74, 0x30]) : unescape c = c := by
  simp only [List.mem_cons, List.not_mem_nil, or_false, not_or] at h
  obtain ⟨hn, hr, ht, hzero⟩ := h
  exact (if_neg hn).trans ((if_neg hr).trans ((if_neg ht).trans (if_neg hzero)))

/-! ### Scans of written literals -/

namespace Scan

open ScriptGraph.Symbol (shortest)

variable {inner content : List Nat} (after : List Symbol)

lemma string_shortest (h : Escaped inner content) :
    string (inner.map shortest ++ shortest 0x22 :: after) = done (inner.length + 1) .string := by
  induction h with
  | nil =>
    rw [string.eq_def]
    rfl
  | @plain c inner content hquote hescape h ih =>
    rw [string.eq_def, List.map_cons, List.cons_append, shortest]
    simp only [if_neg hquote, if_neg hescape, ih, shift, done, List.length_cons]
    rw [Nat.add_comm 1]
  | @escape c inner content h ih =>
    rw [string.eq_def]
    show (string (inner.map shortest ++ shortest 0x22 :: after)).shift 2 = _
    simp only [ih, shift, done, List.length_cons]
    rw [Nat.add_comm 2]

lemma rawString_shortest (h : 0x22 ∉ inner) :
    rawString (inner.map shortest ++ shortest 0x22 :: after) =
      done (inner.length + 1) .string := by
  induction inner with
  | nil => rfl
  | cons c inner ih =>
    rw [List.mem_cons, not_or] at h
    rw [List.map_cons, List.cons_append, shortest]
    simp only [rawString, if_neg (Ne.symm h.1), ih h.2, shift, done, List.length_cons]
    rw [Nat.add_comm 1]

lemma closeChar_shortest : closeChar (shortest 0x27 :: after) = done 1 .number := rfl

lemma char_shortest {c : Nat} (hquote : c ≠ 0x27) (hescape : c ≠ 0x5C) :
    char (shortest c :: shortest 0x27 :: after) = done 2 .number := by
  rw [shortest, char.eq_def]
  simp only [if_neg hquote, if_neg hescape, closeChar_shortest]
  rfl

lemma char_shortest_escaped (c : Nat) :
    char (shortest 0x5C :: shortest c :: shortest 0x27 :: after) = done 3 .number := by
  rw [char.eq_def]
  rfl

end Scan

/-! ### Answers to written literals -/

namespace Lexer

open ScriptGraph.Symbol (shortest)

variable {l : Lexer} {lexicon : Lexicon} {e : Error} {t : Token} {cs : List Nat}

lemma serve_of_error (h : l.nextRaw.2 = .error e) (r : Request) : (l.serve r).2 = .error e := by
  cases r with
  | any => exact h
  | significant => exact congrArg Prod.snd (next_of_error (Prod.ext rfl h))

/-- A token that is always kept is the answer to requests of both kinds. -/
lemma serve_of_kept (h : l.nextRaw.2 = .ok t)
    (ht : ∀ (lexicon : Lexicon) (b : Breaks), (b.sift lexicon t).2 = true) (r : Request) :
    (l.serve r).2 = .ok t ∧ (l.serve r).1.current = l.nextRaw.1.current := by
  cases r with
  | any => exact ⟨h, rfl⟩
  | significant =>
    have hnext := next_of_kept (Prod.ext rfl h) (Prod.ext rfl (ht _ _))
    rw [serve, hnext]
    exact ⟨rfl, rfl⟩

/-- Where the scanner finds a token in a written text, it is the answer, and its lexeme is this
text. -/
lemma serve_written (hcs : ∀ c ∈ cs, c < 0x80000000)
    (ht : ∀ (lexicon : Lexicon) (b : Breaks), (b.sift lexicon t).2 = true)
    (hscan : ∀ after, Scan.token lexicon (cs.map shortest ++ after) = .done cs.length t)
    (rest : List UInt8) (r : Request) :
    let text := cs.flatMap CodePoint.encode
    let answer := (ofBytes lexicon (text ++ rest)).serve r
    answer.2 = .ok t ∧ answer.1.current = ⟨t, 0, text, .beginning⟩ := by
  intro text answer
  have hcursor : (ofBytes lexicon (text ++ rest)).cursor =
      ⟨cs.map shortest ++ Symbol.decode rest, 0, .beginning⟩ := by
    rw [← Symbol.decode_encode hcs]
    exact Cursor.ofBytes_eq _
  have hraw : Scan.token lexicon (ofBytes lexicon (text ++ rest)).cursor.rest =
      .done cs.length t := by
    rw [hcursor]
    exact hscan _
  obtain ⟨hok, -, hcurrent⟩ := nextRaw_of_token hraw
  obtain ⟨hanswer, hsame⟩ := serve_of_kept hok ht r
  refine ⟨hanswer, hsame.trans (hcurrent.trans ?_)⟩
  rw [hcursor, List.take_left' (List.length_map shortest), Symbol.spell_shortest]

end Lexer

end ScriptGraph
