import Mathlib.Data.List.Induction
import Mathlib.Tactic.Lemma
import ScriptGraph.Lexer.Stream

/-!
# Significant tokens

The tokens that matter to the parser are those of the raw stream but for what a rule drops. The rule
looks at the raw tokens before a token and at those of them that were kept: blanks, comments and
continuation marks are dropped, and a line break is dropped after a continuation mark, after a token
that expects more, and inside parentheses and square brackets. Everything else is kept as it stands,
and the two streams end alike.
-/

namespace ScriptGraph

/-! ### Raw streams -/

namespace Lexer

/-- The stream of all tokens of a lexer, of any kind, up to the first end token or error. -/
def rawStream (l : Lexer) : Stream :=
  match _h : l.nextRaw with
  | (l', .error e) => ⟨[], .broken e l'.current⟩
  | (l', .ok t) =>
    if _ht : t = .eof then ⟨[], .finished l'.current⟩
    else
      let rest := rawStream l'
      ⟨l'.current :: rest.lexemes, rest.ending⟩
termination_by l.remaining
decreasing_by exact remaining_nextRaw _h (.inl _ht)

/-- A lexer with another account of line breaks. -/
def withBreaks (l : Lexer) (b : Breaks) : Lexer := { l with breaks := b }

variable {l l' : Lexer} {e : Error} {t : Token} {b : Breaks}

lemma rawStream_of_error (h : l.nextRaw = (l', .error e)) :
    l.rawStream = ⟨[], .broken e l'.current⟩ := by
  rw [rawStream]
  split <;> simp_all

lemma rawStream_of_ok (h : l.nextRaw = (l', .ok t)) :
    l.rawStream =
      if t = .eof then ⟨[], .finished l'.current⟩
      else ⟨l'.current :: l'.rawStream.lexemes, l'.rawStream.ending⟩ := by
  rw [rawStream]
  split <;> simp_all

lemma nextRaw_withBreaks (l : Lexer) (b : Breaks) :
    (l.withBreaks b).nextRaw = (l.nextRaw.1.withBreaks b, l.nextRaw.2) := by
  simp only [nextRaw, withBreaks]
  split <;> rfl

/-- The raw stream does not depend on the account of line breaks. -/
lemma rawStream_withBreaks (l : Lexer) (b : Breaks) : (l.withBreaks b).rawStream = l.rawStream := by
  induction hn : l.remaining using Nat.strongRecOn generalizing l with
  | ind n ih =>
    have hnext := nextRaw_withBreaks l b
    rcases hraw : l.nextRaw with ⟨l', e | t⟩
    · rw [hraw] at hnext
      rw [rawStream_of_error hnext, rawStream_of_error hraw]
      rfl
    · rw [hraw] at hnext
      rw [rawStream_of_ok hnext, rawStream_of_ok hraw]
      by_cases ht : t = .eof
      · simp only [ht, if_true]
        rfl
      · rw [if_neg ht, if_neg ht, ih _ (hn ▸ remaining_nextRaw hraw (.inl ht)) l' rfl]
        rfl

/-- A raw token changes neither the lexicon nor the account of line breaks. -/
lemma nextRaw_fst {x : Except Error Token} (h : l.nextRaw = (l', x)) :
    l'.lexicon = l.lexicon ∧ l'.breaks = l.breaks := by
  simp only [nextRaw] at h
  split at h
  all_goals
    cases h
    exact ⟨rfl, rfl⟩

/-- The kind of the current lexeme is that of the raw token. -/
lemma token_nextRaw (h : l.nextRaw = (l', .ok t)) : l'.current.token = t := by
  simp only [nextRaw] at h
  split at h
  · cases h
  · cases h
    rfl

/-- Where the scanner finds a token, it is the answer, and its lexeme starts at the cursor. -/
lemma nextRaw_of_token {n : Nat}
    (h : Scan.token l.lexicon l.cursor.rest = .done n t) :
    l.nextRaw.2 = .ok t ∧ l.nextRaw.1.cursor = l.cursor.advance n ∧
      l.nextRaw.1.current =
        ⟨t, l.cursor.position, Symbol.spell (l.cursor.rest.take n), l.cursor.location⟩ := by
  simp only [nextRaw, h, Scan.done]
  exact ⟨trivial, trivial, trivial⟩

lemma stream_of_next_error (h : l.next = (l', .error e)) :
    l.stream = ⟨[], .broken e l'.current⟩ := by
  rw [stream]
  split <;> simp_all

lemma stream_of_next_ok (h : l.next = (l', .ok t)) :
    l.stream =
      if t = .eof then ⟨[], .finished l'.current⟩
      else ⟨l'.current :: l'.stream.lexemes, l'.stream.ending⟩ := by
  rw [stream]
  split <;> simp_all

lemma next_of_error (h : l.nextRaw = (l', .error e)) : l.next = (l', .error e) := by
  rw [next]
  split <;> simp_all

lemma next_of_kept (h : l.nextRaw = (l', .ok t))
    (hsift : l'.breaks.sift l'.lexicon t = (b, true)) : l.next = (l'.withBreaks b, .ok t) := by
  rw [next]
  split
  · simp_all
  · split <;> simp_all [withBreaks]

lemma next_of_dropped (h : l.nextRaw = (l', .ok t))
    (hsift : l'.breaks.sift l'.lexicon t = (b, false)) : l.next = (l'.withBreaks b).next := by
  rw [next]
  split
  · simp_all
  · split <;> simp_all [withBreaks]

lemma stream_of_error (h : l.nextRaw = (l', .error e)) :
    l.stream = ⟨[], .broken e l'.current⟩ :=
  stream_of_next_error (next_of_error h)

lemma stream_of_kept (h : l.nextRaw = (l', .ok t))
    (hsift : l'.breaks.sift l'.lexicon t = (b, true)) :
    l.stream =
      if t = .eof then ⟨[], .finished l'.current⟩
      else ⟨l'.current :: (l'.withBreaks b).stream.lexemes, (l'.withBreaks b).stream.ending⟩ :=
  stream_of_next_ok (next_of_kept h hsift)

lemma stream_of_dropped (h : l.nextRaw = (l', .ok t))
    (hsift : l'.breaks.sift l'.lexicon t = (b, false)) : l.stream = (l'.withBreaks b).stream := by
  have hnext := next_of_dropped h hsift
  rcases hnext' : (l'.withBreaks b).next with ⟨l₁, e | t⟩
  · rw [stream_of_next_error hnext', stream_of_next_error (hnext.trans hnext')]
  · rw [stream_of_next_ok hnext', stream_of_next_ok (hnext.trans hnext')]

/-! ### The significant part of a raw stream -/

/-- The lexemes that are kept, from a state of the account of line breaks on. -/
def sieve (lexicon : Lexicon) : Breaks → List Lexeme → List Lexeme
  | _, [] => []
  | b, x :: xs =>
    match b.sift lexicon x.token with
    | (b, true) => x :: sieve lexicon b xs
    | (b, false) => sieve lexicon b xs

/-- Comments can be taken out before. -/
lemma sieve_withoutComments (lexicon : Lexicon) (b : Breaks) (xs : List Lexeme) :
    sieve lexicon b (xs.filter fun x => x.token ≠ .comment) = sieve lexicon b xs := by
  induction xs generalizing b with
  | nil => rfl
  | cons x xs ih =>
    by_cases hx : x.token = .comment
    · rw [List.filter_cons_of_neg (by simp [hx]), ih, sieve, hx]
      rfl
    · rw [List.filter_cons_of_pos (by simpa using hx), sieve, sieve]
      split <;> simp only [ih]

/-- Lexemes of the same kinds are kept at the same places. -/
lemma sieve_congr {r : Lexeme → Lexeme → Prop} (hr : ∀ x y, r x y → y.token = x.token)
    {xs ys : List Lexeme} (h : List.Forall₂ r xs ys) (lexicon : Lexicon) (b : Breaks) :
    List.Forall₂ r (sieve lexicon b xs) (sieve lexicon b ys) := by
  induction h generalizing b with
  | nil => exact .nil
  | @cons x y xs ys hx _ ih =>
    rw [sieve, sieve, hr x y hx]
    split
    · exact .cons hx (ih _)
    · exact ih _

/-- The stream of a lexer is what is kept of its raw stream. -/
lemma stream_eq_sieve (l : Lexer) :
    l.stream = ⟨sieve l.lexicon l.breaks l.rawStream.lexemes, l.rawStream.ending⟩ := by
  induction hn : l.remaining using Nat.strongRecOn generalizing l with
  | ind n ih =>
    rcases hraw : l.nextRaw with ⟨l', e | t⟩
    · rw [stream_of_error hraw, rawStream_of_error hraw]
      rfl
    · obtain ⟨hlexicon, hbreaks⟩ := nextRaw_fst hraw
      have htoken := token_nextRaw hraw
      have hrest (b : Breaks) (ht : t ≠ .eof) := by
        have hlt : l'.remaining < n := hn ▸ remaining_nextRaw hraw (.inl ht)
        exact ih _ hlt (l'.withBreaks b) rfl
      rw [rawStream_of_ok hraw]
      rcases hsift : l'.breaks.sift l'.lexicon t with ⟨b, _ | _⟩
      · have ht : t ≠ .eof := by
          rintro rfl
          cases hsift
        rw [stream_of_dropped hraw hsift, if_neg ht, hrest b ht, rawStream_withBreaks]
        simp only [sieve, htoken, ← hlexicon, ← hbreaks, hsift]
        rfl
      · rw [stream_of_kept hraw hsift]
        by_cases ht : t = .eof
        · rw [if_pos ht, if_pos ht]
          rfl
        · rw [if_neg ht, if_neg ht, hrest b ht, rawStream_withBreaks]
          simp only [sieve, htoken, ← hlexicon, ← hbreaks, hsift]
          rfl

end Lexer

/-! ### The rule -/

/-- Tokens in which every opening token is closed, and every closing token closes one. The kinds of
the two need not agree. -/
inductive Balanced : List Token → Prop
  | nil : Balanced []
  | plain {t : Token} {ts : List Token} (hopening : t.isOpening = false)
      (hclosing : t.isClosing = false) (hts : Balanced ts) : Balanced (t :: ts)
  | group {o c : Token} {inner ts : List Token} (ho : o.isOpening = true)
      (hinner : Balanced inner) (hc : c.isClosing = true) (hts : Balanced ts) :
      Balanced (o :: inner ++ c :: ts)

/-- Whether a token is the innermost opening token that is not closed. -/
def Encloses (o : Token) (ts : List Token) : Prop :=
  o.isOpening = true ∧ ∃ before after, ts = before ++ o :: after ∧ Balanced after

/-- Whether a continuation mark comes after the last line break. -/
def Continued (raw : List Token) : Prop :=
  ∃ before after, raw = before ++ .continueLine :: after ∧ .breakLine ∉ after

/-- Whether a token is dropped after some raw tokens, given those of them that were kept. -/
def Drops (lexicon : Lexicon) (raw kept : List Token) : Token → Prop
  | .whitespace | .comment | .continueLine => True
  | .breakLine =>
    Continued raw ∨ (∃ t, kept.getLast? = some t ∧ lexicon.skipsBreak t = true) ∨
      Encloses .parenLeft kept ∨ Encloses .bracketLeft kept
  | _ => False

/-- The kinds of some lexemes. -/
def kinds (ls : List Lexeme) : List Token := ls.map Lexeme.token

/-- Whether the second of two lists of lexemes is the first without what is dropped. -/
inductive Sifted (lexicon : Lexicon) : List Lexeme → List Lexeme → Prop
  | nil : Sifted lexicon [] []
  | keep {raw kept : List Lexeme} {x : Lexeme} (h : Sifted lexicon raw kept)
      (hx : ¬Drops lexicon (kinds raw) (kinds kept) x.token) :
      Sifted lexicon (raw ++ [x]) (kept ++ [x])
  | drop {raw kept : List Lexeme} {x : Lexeme} (h : Sifted lexicon raw kept)
      (hx : Drops lexicon (kinds raw) (kinds kept) x.token) : Sifted lexicon (raw ++ [x]) kept

/-- What is kept is determined. -/
lemma Sifted.unique {lexicon : Lexicon} {raw kept kept' : List Lexeme} (h : Sifted lexicon raw kept)
    (h' : Sifted lexicon raw kept') : kept = kept' := by
  induction h generalizing kept' with
  | nil =>
    generalize hraw : ([] : List Lexeme) = raw at h'
    cases h' with
    | nil => rfl
    | keep => simp at hraw
    | drop => simp at hraw
  | @keep raw kept x h hx ih =>
    generalize hraw : raw ++ [x] = raw' at h'
    cases h' with
    | nil => simp at hraw
    | keep h' hx' =>
      obtain ⟨rfl, rfl⟩ := List.append_singleton_inj.1 hraw
      rw [ih h']
    | drop h' hx' =>
      obtain ⟨rfl, rfl⟩ := List.append_singleton_inj.1 hraw
      rw [ih h'] at hx
      exact absurd hx' hx
  | @drop raw kept x h hx ih =>
    generalize hraw : raw ++ [x] = raw' at h'
    cases h' with
    | nil => simp at hraw
    | keep h' hx' =>
      obtain ⟨rfl, rfl⟩ := List.append_singleton_inj.1 hraw
      rw [ih h'] at hx
      exact absurd hx hx'
    | drop h' hx' =>
      obtain ⟨rfl, rfl⟩ := List.append_singleton_inj.1 hraw
      exact ih h'

/-! ### Open groups -/

lemma Balanced.append {ts us : List Token} (hts : Balanced ts) (hus : Balanced us) :
    Balanced (ts ++ us) := by
  induction hts with
  | nil => exact hus
  | plain hopening hclosing _ ih => exact .plain hopening hclosing ih
  | group ho hinner hc _ _ ih =>
    rw [List.append_assoc, List.cons_append]
    exact .group ho hinner hc ih

namespace Breaks

/-- The open groups after a token. -/
def regroup (groups : List Token) (t : Token) : List Token :=
  if t.isOpening then t :: groups else if t.isClosing then groups.tail else groups

/-- The open groups after some tokens. -/
def openGroups (ts : List Token) : List Token := ts.foldl regroup []

lemma openGroups_snoc (ts : List Token) (t : Token) :
    openGroups (ts ++ [t]) = regroup (openGroups ts) t := by
  simp [openGroups]

lemma regroup_opening {t : Token} (h : t.isOpening = true) (groups : List Token) :
    regroup groups t = t :: groups := by
  simp [regroup, h]

lemma isOpening_of_isClosing {t : Token} (h : t.isClosing = true) : t.isOpening = false := by
  cases t <;> first | rfl | cases h

lemma regroup_closing {t : Token} (h : t.isClosing = true) (groups : List Token) :
    regroup groups t = groups.tail := by
  simp [regroup, h, isOpening_of_isClosing h]

lemma regroup_plain {t : Token} (hopening : t.isOpening = false) (hclosing : t.isClosing = false)
    (groups : List Token) : regroup groups t = groups := by
  simp [regroup, hopening, hclosing]

/-- Balanced tokens leave the open groups as they are. -/
lemma foldl_regroup_of_balanced {ts : List Token} (h : Balanced ts) (groups : List Token) :
    ts.foldl regroup groups = groups := by
  induction h generalizing groups with
  | nil => rfl
  | plain hopening hclosing _ ih =>
    rw [List.foldl_cons, regroup_plain hopening hclosing]
    exact ih groups
  | group ho _ hc _ ihinner ihts =>
    rw [List.cons_append, List.foldl_cons, List.foldl_append, List.foldl_cons, regroup_opening ho,
      ihinner, regroup_closing hc]
    exact ihts groups

/-- An open group starts with a token that is followed by balanced tokens up to the next one. -/
lemma exists_of_openGroups {ts groups : List Token} {o : Token} (h : openGroups ts = o :: groups) :
    ∃ before after, ts = before ++ o :: after ∧ o.isOpening = true ∧ Balanced after ∧
      openGroups before = groups := by
  induction hn : ts.length using Nat.strongRecOn generalizing ts o groups with
  | ind n ih =>
    rcases List.eq_nil_or_concat ts with rfl | ⟨ts, t, rfl⟩
    · cases h
    rw [List.concat_eq_append] at h hn ⊢
    rw [List.length_append, List.length_singleton] at hn
    rw [openGroups_snoc] at h
    by_cases hopening : t.isOpening = true
    · rw [regroup_opening hopening] at h
      obtain ⟨rfl, rfl⟩ := List.cons.inj h
      exact ⟨ts, [], rfl, hopening, .nil, rfl⟩
    by_cases hclosing : t.isClosing = true
    · -- The token closes a group inside the one in question, which was open before that.
      rw [regroup_closing hclosing] at h
      cases hts : openGroups ts with
      | nil =>
        rw [hts] at h
        cases h
      | cons x groups' =>
        rw [hts, List.tail_cons] at h
        obtain ⟨mid, inner, rfl, hx, hinner, hmid⟩ := ih ts.length (by omega) hts rfl
        have hlt : mid.length < n := by
          simp only [List.length_append, List.length_cons] at hn
          omega
        obtain ⟨before, after, rfl, ho, hafter, hbefore⟩ := ih mid.length hlt (hmid.trans h) rfl
        refine ⟨before, after ++ (x :: inner ++ [t]), by simp, ho, ?_, hbefore⟩
        exact hafter.append (.group hx hinner hclosing .nil)
    · rw [regroup_plain (by simpa using hopening) (by simpa using hclosing)] at h
      obtain ⟨before, after, rfl, ho, hafter, hbefore⟩ := ih ts.length (by omega) h rfl
      refine ⟨before, after ++ [t], by simp, ho, ?_, hbefore⟩
      exact hafter.append (.plain (by simpa using hopening) (by simpa using hclosing) .nil)

/-- The innermost open group is that of the innermost opening token that is not closed. -/
lemma head?_openGroups {ts : List Token} {o : Token} :
    (openGroups ts).head? = some o ↔ Encloses o ts := by
  constructor
  · intro h
    obtain ⟨groups, hgroups⟩ := List.head?_eq_some_iff.1 h
    obtain ⟨before, after, hts, ho, hafter, -⟩ := exists_of_openGroups hgroups
    exact ⟨ho, before, after, hts, hafter⟩
  · rintro ⟨ho, before, after, rfl, hafter⟩
    rw [openGroups, List.foldl_append, List.foldl_cons, regroup_opening ho,
      foldl_regroup_of_balanced hafter]
    rfl

/-! ### Steps -/

/-- Whether an account of line breaks is that of some raw tokens and of those of them that were
kept. -/
structure Tracks (b : Breaks) (raw kept : List Token) : Prop where
  previous : b.previous = kept.getLast?.getD .breakLine
  continued : b.continued = true ↔ Continued raw
  groups : b.groups = openGroups kept

lemma not_continued_nil : ¬Continued [] := by
  rintro ⟨before, after, h, -⟩
  simp at h

lemma tracks_initial : Tracks {} [] [] := ⟨rfl, by simp [not_continued_nil], rfl⟩

lemma joinsLines_iff (b : Breaks) :
    b.joinsLines = true ↔
      b.groups.head? = some .parenLeft ∨ b.groups.head? = some .bracketLeft := by
  rcases b with ⟨previous, continued, _ | ⟨o, groups⟩⟩
  · simp [joinsLines]
  · cases o <;> simp [joinsLines]

/-- A line break is dropped by the account exactly if it is by the rule. -/
lemma Tracks.dropsBreak_iff (lexicon : Lexicon) {b : Breaks} {raw kept : List Token}
    (h : b.Tracks raw kept) : b.dropsBreak lexicon = true ↔ Drops lexicon raw kept .breakLine := by
  have hprevious : lexicon.skipsBreak b.previous = true ↔
      ∃ t, kept.getLast? = some t ∧ lexicon.skipsBreak t = true := by
    rw [h.previous]
    -- Nothing has been kept before the first token, and a line break skips none.
    cases kept.getLast? with
    | none => simp [lexicon.skipsBreak_breakLine]
    | some t => simp
  simp only [dropsBreak, Bool.or_eq_true, h.continued, hprevious, joinsLines_iff, h.groups,
    head?_openGroups, Drops, or_assoc]

lemma continued_snoc {raw : List Token} {t : Token} (hmark : t ≠ .continueLine)
    (hbreak : t ≠ .breakLine) : Continued (raw ++ [t]) ↔ Continued raw := by
  constructor
  · rintro ⟨before, after, h, hafter⟩
    rcases List.eq_nil_or_concat after with rfl | ⟨after, u, rfl⟩
    · obtain ⟨-, rfl⟩ := List.append_singleton_inj.1 h
      exact absurd rfl hmark
    · rw [List.concat_eq_append, ← List.cons_append, ← List.append_assoc] at h
      obtain ⟨rfl, rfl⟩ := List.append_singleton_inj.1 h
      refine ⟨before, after, rfl, ?_⟩
      intro hmem
      exact hafter (by simp [hmem])
  · rintro ⟨before, after, rfl, hafter⟩
    refine ⟨before, after ++ [t], by simp, ?_⟩
    simp [hafter, Ne.symm hbreak]

lemma continued_snoc_mark (raw : List Token) : Continued (raw ++ [.continueLine]) :=
  ⟨raw, [], rfl, by simp⟩

lemma not_continued_snoc_break (raw : List Token) : ¬Continued (raw ++ [.breakLine]) := by
  rintro ⟨before, after, h, hafter⟩
  rcases List.eq_nil_or_concat after with rfl | ⟨after, u, rfl⟩
  · obtain ⟨-, hu⟩ := List.append_singleton_inj.1 h
    cases hu
  · rw [List.concat_eq_append, ← List.cons_append, ← List.append_assoc] at h
    obtain ⟨-, rfl⟩ := List.append_singleton_inj.1 h
    simp at hafter

/-- A token that is dropped has left an account of the raw tokens with it, and of the same kept
ones. -/
lemma Tracks.of_dropped {lexicon : Lexicon} {b b' : Breaks} {raw kept : List Token} {t : Token}
    (h : b.Tracks raw kept) (hsift : b.sift lexicon t = (b', false)) :
    Drops lexicon raw kept t ∧ b'.Tracks (raw ++ [t]) kept := by
  obtain ⟨hprevious, hcontinued, hgroups⟩ := h
  have hblank (hmark : t ≠ .continueLine) (hbreak : t ≠ .breakLine) :
      b.Tracks (raw ++ [t]) kept := by
    refine ⟨hprevious, ?_, hgroups⟩
    rw [continued_snoc hmark hbreak]
    exact hcontinued
  unfold sift at hsift
  split at hsift
  · cases hsift
    exact ⟨trivial, hblank (by decide) (by decide)⟩
  · cases hsift
    exact ⟨trivial, hblank (by decide) (by decide)⟩
  · cases hsift
    exact ⟨trivial, hprevious, by simp [continued_snoc_mark], hgroups⟩
  · split at hsift
    · next hdrops =>
      cases hsift
      exact ⟨(Tracks.dropsBreak_iff lexicon ⟨hprevious, hcontinued, hgroups⟩).1 hdrops, hprevious,
        by simp [not_continued_snoc_break], hgroups⟩
    · cases hsift
  · cases hsift

/-- A token that is kept has left an account of the raw tokens and of the kept ones with it. -/
lemma Tracks.of_kept {lexicon : Lexicon} {b b' : Breaks} {raw kept : List Token} {t : Token}
    (h : b.Tracks raw kept) (hsift : b.sift lexicon t = (b', true)) :
    ¬Drops lexicon raw kept t ∧ b'.Tracks (raw ++ [t]) (kept ++ [t]) := by
  have hdrops := h.dropsBreak_iff lexicon
  obtain ⟨hprevious, hcontinued, hgroups⟩ := h
  unfold sift at hsift
  split at hsift
  · cases hsift
  · cases hsift
  · cases hsift
  · split at hsift
    · cases hsift
    · next hkeeps =>
      cases hsift
      refine ⟨fun hd => hkeeps (hdrops.2 hd), by simp, by simp [not_continued_snoc_break], ?_⟩
      rw [openGroups_snoc, regroup_plain rfl rfl]
      exact hgroups
  · next hblank hcomment hmark hbreak =>
    cases hsift
    refine ⟨?_, by simp, ?_, ?_⟩
    · cases t <;> simp_all [Drops]
    · rw [continued_snoc hmark hbreak]
      exact hcontinued
    · rw [openGroups_snoc, ← hgroups]
      rfl

end Breaks

/-! ### Streams -/

/-- What is left of a stream after some raw tokens is what is left of the raw stream, sifted. -/
lemma Lexer.sifted_stream (l : Lexer) {raw kept : List Lexeme} (h : Sifted l.lexicon raw kept)
    (hbreaks : l.breaks.Tracks (kinds raw) (kinds kept)) :
    Sifted l.lexicon (raw ++ l.rawStream.lexemes) (kept ++ l.stream.lexemes) ∧
      l.stream.ending = l.rawStream.ending := by
  induction hn : l.remaining using Nat.strongRecOn generalizing l raw kept with
  | ind n ih =>
    rcases hraw : l.nextRaw with ⟨l', e | t⟩
    · rw [Lexer.rawStream_of_error hraw, Lexer.stream_of_error hraw, List.append_nil,
        List.append_nil]
      exact ⟨h, rfl⟩
    obtain ⟨hlexicon, hsame⟩ := Lexer.nextRaw_fst hraw
    have htoken := Lexer.token_nextRaw hraw
    have hsnoc (ls : List Lexeme) : kinds (ls ++ [l'.current]) = kinds ls ++ [t] := by
      simp [kinds, htoken]
    have hlt (ht : t ≠ .eof) : l'.remaining < n := hn ▸ Lexer.remaining_nextRaw hraw (.inl ht)
    rcases hsift : l'.breaks.sift l'.lexicon t with ⟨b, _ | _⟩
    · have ht : t ≠ .eof := by
        rintro rfl
        cases hsift
      rw [Lexer.stream_of_dropped hraw hsift, Lexer.rawStream_of_ok hraw, if_neg ht]
      rw [hsame, hlexicon] at hsift
      obtain ⟨hdrops, htracks⟩ := hbreaks.of_dropped hsift
      rw [← htoken] at hdrops
      rw [← hsnoc] at htracks
      have hrest := ih _ (hlt ht) (l'.withBreaks b) (hlexicon ▸ h.drop hdrops) htracks rfl
      rw [Lexer.rawStream_withBreaks] at hrest
      simpa [Lexer.withBreaks, hlexicon] using hrest
    · rw [Lexer.stream_of_kept hraw hsift, Lexer.rawStream_of_ok hraw]
      rw [hsame, hlexicon] at hsift
      obtain ⟨hkeeps, htracks⟩ := hbreaks.of_kept hsift
      rw [← htoken] at hkeeps
      rw [← hsnoc, ← hsnoc] at htracks
      by_cases ht : t = .eof
      · rw [if_pos ht, if_pos ht, List.append_nil, List.append_nil]
        exact ⟨h, rfl⟩
      · have hrest := ih _ (hlt ht) (l'.withBreaks b) (hlexicon ▸ h.keep hkeeps) htracks rfl
        rw [Lexer.rawStream_withBreaks] at hrest
        rw [if_neg ht, if_neg ht]
        simpa [Lexer.withBreaks, hlexicon] using hrest

/-- The significant tokens of a text are its raw tokens without what the rule drops, and the two
streams end with the same end token or error. -/
theorem stream_eq_sifted (lexicon : Lexicon) (cursor : Cursor) :
    let l := Lexer.ofCursor lexicon cursor
    (∀ kept, kept = l.stream.lexemes ↔ Sifted lexicon l.rawStream.lexemes kept) ∧
      l.stream.ending = l.rawStream.ending := by
  intro l
  obtain ⟨hsifted, hending⟩ := l.sifted_stream .nil Breaks.tracks_initial
  refine ⟨?_, hending⟩
  intro kept
  constructor
  · rintro rfl
    exact hsifted
  · intro h
    exact h.unique hsifted

end ScriptGraph
