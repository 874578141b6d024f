import ScriptGraph.Lexer.Basic

/-!
# Token streams

The tokens that matter to the parser, from a lexer's state up to the first end token or error.
-/

namespace ScriptGraph

/-- How a stream ends. -/
inductive Ending where
  /-- With an end token. -/
  | finished (eof : Lexeme)
  /-- With an error, which leaves the lexer at an empty lexeme. -/
  | broken (error : Error) (place : Lexeme)

namespace Ending

/-- The lexer's current lexeme at the end. -/
def lexeme : Ending → Lexeme
  | finished l | broken _ l => l

end Ending

/-- The significant lexemes of a source text. -/
structure Stream where
  lexemes : List Lexeme
  ending : Ending

namespace Lexer

/-- A significant token before the end takes at least one symbol. -/
theorem remaining_next {l l' : Lexer} {t : Token} (h : l.next = (l', .ok t)) (ht : t ≠ .eof) :
    l'.remaining < l.remaining := by
  induction hn : l.remaining using Nat.strongRecOn generalizing l with
  | ind n ih =>
    rw [next] at h
    split at h
    · simp at h
    · next l₁ t₁ h₁ =>
      split at h
      · next breaks _ =>
        simp only [Prod.mk.injEq, Except.ok.injEq] at h
        obtain ⟨rfl, rfl⟩ := h
        have h₁' : l₁.remaining < l.remaining := remaining_nextRaw h₁ (.inl ht)
        exact hn ▸ h₁'
      · next breaks ha =>
        have ht₁ : t₁ ≠ .eof := by rintro rfl; simpa using congrArg Prod.snd ha
        have h₁' := remaining_nextRaw h₁ (.inl ht₁)
        have := ih _ (hn ▸ h₁') (l := { l₁ with breaks }) h rfl
        exact Nat.lt_trans this (hn ▸ h₁')

/-- The stream of a lexer. -/
def stream (l : Lexer) : Stream :=
  match _h : l.next with
  | (l', .error e) => ⟨[], .broken e l'.current⟩
  | (l', .ok t) =>
    if _ht : t = .eof then ⟨[], .finished l'.current⟩
    else
      let rest := stream l'
      ⟨l'.current :: rest.lexemes, rest.ending⟩
termination_by l.remaining
decreasing_by exact remaining_next _h _ht

end Lexer

end ScriptGraph
