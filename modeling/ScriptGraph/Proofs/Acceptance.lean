import ScriptGraph.Proofs.Building

/-!
# Texts that have a graph

A text has a graph exactly if its tokens derive a unit of the grammar, no block of the unit declares
a name twice and every assignment has a target that can be assigned to.
-/

namespace ScriptGraph

/-- A unit can be resolved and lowered exactly if no block of it declares a name twice and all its
assignments have targets. -/
lemma Code.exists_lower?_unit (body : List Code) (fs : List Function) :
    (∃ f r x, (unit body).resolve? Frame.initial = some (f, r) ∧ r.lower? fs = some x) ↔
      (unit body).Distinct ∧ (unit body).Assignable := by
  constructor
  · rintro ⟨f, r, ⟨fs', pre, t⟩, hr, hl⟩
    have hdistinct := distinct_of_resolve? (unit body) hr List.nodup_nil
    have hassignable := exists_lower? (unit body) fs hr
    exact ⟨hdistinct.2, hassignable.1 ⟨fs', pre, t, hl⟩⟩
  · rintro ⟨hdistinct, hassignable⟩
    obtain ⟨f, r, hr⟩ := exists_resolve? (unit body) (f := Frame.initial) (by simp [Frame.initial])
      List.nodup_nil hdistinct
    obtain ⟨fs', pre, t, hl⟩ := (exists_lower? (unit body) fs hr).2 hassignable
    exact ⟨f, r, _, hr, hl⟩

/-- A text has a graph exactly if its tokens derive a unit without an error, no block of the unit
declares a name twice and all its assignments have targets. The derivation is unique. -/
theorem parse_accepts_iff (lexicon : Lexicon) (source : List UInt8) :
    ((∃ g, parse lexicon source = .ok g) ↔
      ∃ b : Phrase.Body, (Lexer.ofBytes lexicon source).Derives b ∧
        (Code.unit b.code).Distinct ∧ (Code.unit b.code).Assignable) ∧
    Function.Injective Phrase.Body.lexemes := by
  refine ⟨?_, Phrase.Body.lexemes_injective⟩
  simp only [parse_eq_ok_iff_lower, ← Code.exists_lower?_unit _ []]
  constructor
  · rintro ⟨g, b, r, fs, pre, t, hb, hr, hl, -⟩
    exact ⟨b, hb, _, r, _, hr, hl⟩
  · rintro ⟨b, hb, f, r, ⟨fs, pre, t⟩, hr, hl⟩
    obtain ⟨_, _, _, _, _, rfl, -⟩ := Code.resolve?_function.1 hr
    exact ⟨_, b, r, fs, pre, t, hb, hr, hl, rfl⟩

end ScriptGraph
