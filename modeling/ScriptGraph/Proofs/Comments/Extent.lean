import Mathlib.Tactic.IntervalCases
import ScriptGraph.Proofs.Comments.Stability

/-!
# How far a comment goes

A comment starts as a word or as an operator and goes up to the end of its line. It has no line feed
in it, and no numeral goes on with its first symbol.
-/

namespace ScriptGraph

namespace Scan

variable {lexicon : Lexicon} {symbols rest : List Symbol} {n : Nat} {t : Token}

/-- Whether some symbols go up to the end of a line and have no line feed before it. -/
structure EndsLine (symbols : List Symbol) (n : Nat) : Prop where
  passed : ∀ s ∈ symbols.take n, s.value? ≠ some 0x0A
  stop : AtLineEnd (symbols.drop n)

lemma EndsLine.add {k m : Nat} (hk : ∀ s ∈ symbols.take k, s.value? ≠ some 0x0A)
    (h : EndsLine (symbols.drop k) m) : EndsLine symbols (k + m) := by
  refine ⟨?_, ?_⟩
  · intro s hs
    rw [List.take_add, List.mem_append] at hs
    rcases hs with hs | hs
    · exact hk s hs
    · exact h.passed s hs
  · rw [← List.drop_drop]
    exact h.stop

lemma value?_ne_of_mem_run {p : Nat → Bool} (hp : p 0x0A = false) {s : Symbol}
    (hs : s ∈ run p symbols) : s.value? ≠ some 0x0A := by
  have hrun := any_of_mem_run hs
  intro hvalue
  simp [hvalue, hp] at hrun

/-- A comment goes up to the end of its line. -/
lemma endsLine_comment (hseq : ∀ s ∈ symbols, s.IsSequence) (h : comment symbols = done n t) :
    EndsLine symbols n := by
  obtain ⟨-, m, hm, rfl⟩ := andThen_eq_done.1 h
  cases hm
  refine ⟨?_, ?_⟩
  · intro s hs
    rw [Nat.add_zero, take_length_run] at hs
    exact value?_ne_of_mem_run rfl hs
  · intro s hs
    have hmem : s ∈ symbols := List.mem_of_mem_drop (List.mem_of_mem_head? hs)
    refine ⟨?_, hseq s hmem⟩
    have hstop := any_drop_takeWhile (fun s => s.value?.any (· != 0x0A)) symbols
    rw [Nat.add_zero, run] at hs
    rw [hs, Option.any_some] at hstop
    cases s with
    | codePoint v bs => simpa [Symbol.value?] using hstop
    | malformed b => exact (hseq _ hmem).elim

/-- A keyword for a comment at the start of some symbols is seen, if no shorter one is. -/
lemma commentMark?_ne_none_of_take (hpos : 0 < n) (hn : n ≤ symbols.length)
    (h : keyword? lexicon (symbols.take n) = some .comment) :
    commentMark? lexicon symbols ≠ none := by
  have hmark : ∃ m, 0 < m ∧ keyword? lexicon (symbols.take m) = some .comment := ⟨n, hpos, h⟩
  obtain ⟨hpos', hkeyword⟩ := Nat.find_spec hmark
  have hfirst : commentMark? lexicon symbols = some (Nat.find hmark) := by
    refine commentMark?_eq_some.2 ⟨hkeyword, hpos', ?_, ?_⟩
    · exact Nat.le_trans (Nat.find_min' hmark ⟨hpos, h⟩) hn
    · intro m hm hlt hkeyword'
      exact Nat.find_min hmark hlt ⟨hm, hkeyword'⟩
  rw [hfirst]
  exact Option.some_ne_none _

/-- So is one that all symbols form. -/
lemma commentMark?_ne_none (hne : symbols ≠ [])
    (h : keyword? lexicon symbols = some .comment) : commentMark? lexicon symbols ≠ none :=
  commentMark?_ne_none_of_take (List.length_pos_iff.2 hne) (Nat.le_refl _)
    (by rwa [List.take_length])

lemma endsLine_word {first : Symbol} (hseq : ∀ s ∈ symbols, s.IsSequence)
    (h : word lexicon first symbols = done n .comment) : EndsLine symbols n := by
  rw [word, andThen_eq_done] at h
  obtain ⟨-, m, hm, rfl⟩ := h
  apply EndsLine.add
  · intro s hs
    rw [take_length_run] at hs
    exact value?_ne_of_mem_run rfl hs
  · split at hm
    · exact endsLine_comment (fun s hs => hseq s (List.mem_of_mem_drop hs)) hm
    · next hne _ =>
      cases hm
      exact absurd rfl hne
    · cases hm

lemma endsLine_operator {kind : Token} {first : Symbol} (hseq : ∀ s ∈ symbols, s.IsSequence)
    (hkind : kind ≠ .comment) (h : operator lexicon kind first symbols = done n .comment) :
    EndsLine symbols n := by
  simp only [operator] at h
  split at h
  · next k hmark =>
    obtain ⟨m, hm, rfl⟩ := shift_eq_done.1 h
    obtain ⟨-, -, hk, -⟩ := commentMark?_eq_some.1 hmark
    apply EndsLine.add
    · -- The mark lies within the run of operator characters.
      intro s hs
      apply value?_ne_of_mem_run (p := fun c => (classOf c).isOperator) rfl
      rw [← take_length_run]
      exact (List.take_sublist_take_left (Nat.sub_le_of_le_add hk)).subset hs
    · exact endsLine_comment (fun s hs => hseq s (List.mem_of_mem_drop hs)) hm
  · next hmark =>
    obtain ⟨-, m, hm, rfl⟩ := andThen_eq_done.1 h
    simp only [done, mk.injEq, Except.ok.injEq] at hm
    cases hkeyword : keyword? lexicon
        (first :: run (fun c => (classOf c).isOperator) symbols) with
    | none =>
      rw [hkeyword] at hm
      exact absurd hm.2 hkind
    | some token =>
      rw [hkeyword] at hm
      obtain ⟨-, rfl⟩ := hm
      exact absurd hmark (commentMark?_ne_none (List.cons_ne_nil _ _) hkeyword)

/-- No character starts a comment. -/
lemma classOf_ne_comment (c : Nat) : classOf c ≠ .comment := by
  by_cases hc : c < 0x80
  · have hascii : ∀ c < 0x80, classOf c ≠ .comment := by decide +kernel
    exact hascii c hc
  · rw [classOf, if_pos (Nat.not_lt.1 hc)]
    decide

/-- A comment starts as a word or as an operator. -/
lemma tail_comment {first : Symbol} {v : Nat} (hseq : ∀ s ∈ rest, s.IsSequence)
    (h : tail lexicon first v rest = done n .comment) :
    (classOf v = .ident ∨ (classOf v).isOperator = true) ∧ EndsLine rest n := by
  unfold tail at h
  split at h
  · cases h
  · next hv =>
    split at h
    · cases outcome_quotedIdent (congrArg outcome h)
    · exact ⟨.inl hv, endsLine_word hseq h⟩
  · split at h
    · cases outcome_char (congrArg outcome h)
    · cases h
  · cases outcome_string (congrArg outcome h)
  · split at h
    · split at h
      · cases outcome_rawString (congrArg outcome h)
      · cases h
    · cases h
  · split at h
    · next hoperator =>
      exact ⟨.inr hoperator, endsLine_operator hseq (classOf_ne_comment v) h⟩
    · simp only [done, mk.injEq, Except.ok.injEq] at h
      exact absurd h.2 (classOf_ne_comment v)

/-- A comment goes up to the end of its line, and no numeral goes on like it. -/
theorem token_comment (hseq : ∀ s ∈ symbols, s.IsSequence)
    (h : token lexicon symbols = done n .comment) :
    symbols.head?.any isDigit = false ∧ EndsLine symbols n := by
  match symbols with
  | [] => cases h
  | .malformed b :: rest => cases h
  | .codePoint v bs :: rest =>
    obtain ⟨hfirst, hrest⟩ := List.forall_mem_cons.1 hseq
    obtain ⟨m, hm, rfl⟩ := shift_eq_done.1 h
    obtain ⟨hclass, hends⟩ := tail_comment hrest hm
    constructor
    · rw [List.head?_cons, Option.any_some, Bool.eq_false_iff]
      intro hdigit
      obtain ⟨c, bs', heq, hc⟩ := exists_of_isDigit (fun _ => hfirst) hdigit
      cases heq
      have hnumber : classOf v = .number := by
        obtain ⟨hlow, hhigh⟩ := hc
        interval_cases v <;> rfl
      rw [hnumber] at hclass
      rcases hclass with hclass | hclass <;> cases hclass
    · refine EndsLine.add (k := 1) ?_ hends
      intro s hs
      rw [List.take_one, List.head?_cons, Option.toList_some, List.mem_singleton] at hs
      subst hs
      intro hvalue
      cases hvalue
      rcases hclass with hclass | hclass <;> cases hclass

end Scan

end ScriptGraph
