import ScriptGraph.Proofs.Comments.Stability
import ScriptGraph.Proofs.Literals

/-!
# Forms of identifiers

An identifier is a word, or it starts with a backtick; then a backtick ends it, or what comes after
it does not go on with it. Without its backticks it is its content. Scanned again on its own, it is
the same identifier.
-/

namespace ScriptGraph

namespace Scan

open ScriptGraph.Symbol (codePoint)

variable {symbols rest content : List Symbol} {t : Token} {v n : Nat} {bs : List UInt8}

/-- Whether a symbol can stand in the content of an identifier. -/
def IsContent (s : Symbol) : Prop :=
  ∃ v, s.value? = some v ∧ v ≠ 0x60 ∧ classOf v ≠ .whitespace ∧ classOf v ≠ .breakLine

/-- Symbols that form an identifier, and its content. -/
inductive Identifies : List Symbol → List Symbol → Prop
  | word {v : Nat} {bs : List UInt8} {rest : List Symbol} (hv : classOf v = .ident)
      (h : ∀ s ∈ codePoint v bs :: rest, IsContent s) :
      Identifies (codePoint v bs :: rest) (codePoint v bs :: rest)
  | opened {os : List UInt8} {content : List Symbol} (h : ∀ s ∈ content, IsContent s) :
      Identifies (codePoint 0x60 os :: content) content
  | closed {os qs : List UInt8} {content : List Symbol} (h : ∀ s ∈ content, IsContent s) :
      Identifies (codePoint 0x60 os :: (content ++ [codePoint 0x60 qs])) content

/-- A symbol of the content is no backtick. -/
lemma IsContent.isValue {s : Symbol} (h : IsContent s) : s.isValue 0x60 = false := by
  obtain ⟨v, hv, hne, -⟩ := h
  simpa [Symbol.isValue, hv] using hne

/-! ### Quoted identifiers -/

/-- A quoted identifier takes all of its content. -/
lemma quotedIdent_append (h : ∀ s ∈ content, IsContent s) (rest : List Symbol) :
    quotedIdent (content ++ rest) = (quotedIdent rest).shift content.length := by
  induction content with
  | nil => simp [shift]
  | cons s content ih =>
    obtain ⟨⟨v, hv, hne, hblank, hbreak⟩, hcontent⟩ := List.forall_mem_cons.1 h
    cases s with
    | malformed b => cases hv
    | codePoint w bs =>
      obtain rfl := Option.some.inj hv
      rw [List.cons_append, quotedIdent, if_neg (not_or.2 ⟨hblank, hbreak⟩), if_neg hne,
        ih hcontent, List.length_cons]
      have hcount (c : Nat) : 1 + (content.length + c) = content.length + 1 + c := by omega
      exact congrArg (Scan.mk · _) (hcount _)

/-- A quoted identifier is its content and perhaps a backtick. -/
lemma quotedIdent_content (h : quotedIdent symbols = done n t) :
    ∃ content, (∀ s ∈ content, IsContent s) ∧
      (symbols.take n = content ∨ ∃ qs, symbols.take n = content ++ [codePoint 0x60 qs]) := by
  fun_induction quotedIdent symbols generalizing n with
  | case2 => cases h
  | case1 | case3 =>
    cases h
    exact ⟨[], List.forall_mem_nil _, .inl rfl⟩
  | case4 bs =>
    cases h
    exact ⟨[], List.forall_mem_nil _, .inr ⟨bs, rfl⟩⟩
  | case5 v bs rest hblank hne ih =>
    obtain ⟨m, hm, rfl⟩ := shift_eq_done.1 h
    obtain ⟨content, hcontent, htake⟩ := ih hm
    obtain ⟨hwhitespace, hbreak⟩ := not_or.1 hblank
    refine ⟨codePoint v bs :: content,
      List.forall_mem_cons.2 ⟨⟨v, rfl, hne, hwhitespace, hbreak⟩, hcontent⟩, ?_⟩
    rw [Nat.add_comm, List.take_succ_cons]
    rcases htake with htake | ⟨qs, htake⟩
    · exact .inl (congrArg _ htake)
    · exact .inr ⟨qs, congrArg _ htake⟩

/-- A quoted identifier has a form, and is found again on its own. -/
lemma identifies_quoted (os : List UInt8) (h : quotedIdent rest = done n .ident) :
    (∃ content, Identifies (codePoint 0x60 os :: rest.take n) content) ∧
      quotedIdent (rest.take n) = done n .ident := by
  have hwithin : n ≤ rest.length := by
    have hwithin := (sound_quotedIdent rest).within
    rwa [h] at hwithin
  have hlength := List.length_take_of_le hwithin
  obtain ⟨content, hcontent, htake⟩ := quotedIdent_content h
  rcases htake with htake | ⟨qs, htake⟩
  · rw [htake] at hlength ⊢
    have hscan := quotedIdent_append hcontent []
    rw [List.append_nil] at hscan
    refine ⟨⟨content, .opened hcontent⟩, ?_⟩
    rw [hscan, ← hlength]
    rfl
  · rw [htake] at hlength ⊢
    refine ⟨⟨content, .closed hcontent⟩, ?_⟩
    rw [quotedIdent_append hcontent, ← hlength, List.length_append]
    rfl

/-! ### Words -/

lemma isContent_of_isWordPart {s : Symbol} (h : s.value?.any isWordPart = true) : IsContent s := by
  cases s with
  | malformed b => cases h
  | codePoint v bs =>
    simp only [Symbol.value?, Option.any_some, isWordPart, Bool.and_eq_true, Bool.or_eq_true,
      decide_eq_true_eq, bne_iff_ne] at h
    obtain ⟨⟨hclass, hne⟩, -⟩ := h
    refine ⟨v, rfl, hne, ?_⟩
    rcases hclass with hclass | hclass <;> simp [hclass]

/-- A word has a form, and is found again on its own. -/
lemma identifies_word (hclass : classOf v = .ident) (hv : v ≠ 0x60)
    (h : word .standard (codePoint v bs) rest = done n .ident) :
    (∃ content, Identifies (codePoint v bs :: rest.take n) content) ∧
      word .standard (codePoint v bs) (rest.take n) = done n .ident := by
  have hcomment : Token.ident ≠ .comment := by decide
  obtain ⟨rfl, -, hkeyword⟩ := (word_eq_done hcomment).1 h
  have hparts : ∀ s ∈ run isWordPart rest, s.value?.any isWordPart = true :=
    fun _ => any_of_mem_run
  have hself : run isWordPart (run isWordPart rest) = run isWordPart rest :=
    List.takeWhile_eq_self_iff.2 hparts
  rw [take_length_run]
  constructor
  · have hfirst : IsContent (codePoint v bs) := ⟨v, rfl, hv, by simp [hclass]⟩
    exact ⟨_, .word hclass <| List.forall_mem_cons.2
      ⟨hfirst, fun s hs => isContent_of_isWordPart (hparts s hs)⟩⟩
  · rw [word_eq_done hcomment, hself, List.drop_length]
    exact ⟨rfl, rfl, hkeyword⟩

/-! ### Any identifier -/

/-- Only a character that can start an identifier starts one. -/
lemma classOf_of_ident {first : Symbol} (h : (tail .standard first v rest).outcome = .ok .ident) :
    classOf v = .ident := by
  have hkeyword {text : String} (h : Lexicon.standard.keyword? text = some .ident) : False := by
    have hall : ∀ k ∈ Lexicon.standard.keywords, k.2 ≠ .ident := by decide
    exact hall _ (Lexicon.mem_of_keyword? h) rfl
  unfold tail at h
  split at h
  · cases h
  · assumption
  · split_ifs at h
    · cases outcome_char h
    · cases h
  · cases outcome_string h
  · match rest with
    | [] => cases h
    | s :: rest =>
      simp only at h
      split_ifs at h
      · cases outcome_rawString h
      · cases h
  · split_ifs at h
    · rcases outcome_operator h with heq | ⟨text, htext⟩
      · exact heq.symm
      · exact (hkeyword htext).elim
    · exact Except.ok.inj h

/-- The symbols of an identifier have a form, and are the same identifier on their own. -/
theorem identifies_token (h : token .standard symbols = done n .ident) :
    (∃ content, Identifies (symbols.take n) content) ∧
      token .standard (symbols.take n) = done n .ident := by
  match symbols with
  | [] | .malformed b :: rest => cases h
  | .codePoint v bs :: rest =>
    obtain ⟨m, hm, rfl⟩ := shift_eq_done.1 h
    have hclass := classOf_of_ident (congrArg outcome hm)
    have htail (symbols : List Symbol) : tail .standard (codePoint v bs) v symbols =
        if v = 0x60 then quotedIdent symbols else word .standard (codePoint v bs) symbols := by
      simp only [tail, hclass]
    rw [Nat.add_comm, List.take_succ_cons, token, htail, Nat.add_comm m 1, shift_eq_done]
    rw [htail] at hm
    by_cases hv : v = 0x60
    · subst hv
      rw [if_pos rfl] at hm ⊢
      obtain ⟨hform, hown⟩ := identifies_quoted bs hm
      exact ⟨hform, m, hown, rfl⟩
    · rw [if_neg hv] at hm ⊢
      obtain ⟨hform, hown⟩ := identifies_word hclass hv hm
      exact ⟨hform, m, hown, rfl⟩

end Scan

end ScriptGraph
