import ScriptGraph.Proofs.Building
import ScriptGraph.Proofs.Pruning
import ScriptGraph.Proofs.Transport

/-!
# Normal form

The functions of a graph are in normal form once their source has been parsed: every term has a
place, a block is the root of a function and nothing else, all terms of a block but the last are
writes, and no variable is written with its own value. The terms that lowering yields hold no block
at all; blocks arise where a function is closed, and pruning changes references only.
-/

namespace ScriptGraph

namespace Term

/-- Whether a term is a block. -/
def IsBlock : Term → Prop
  | block .. => True
  | _ => False

/-- Whether a term writes a variable. -/
def IsWrite : Term → Prop
  | setLocal .. | setGlobal .. => True
  | _ => False

/-- Whether a term writes a variable with what the variable holds. -/
def IsSelfWrite : Term → Prop
  | setLocal i (getLocal j _) _ => i = j
  | setGlobal m (getGlobal n _) _ => m = n
  | _ => False

/-- The normal form of the root of a function. -/
structure Normal (root : Term) : Prop where
  located : ∀ t ∈ root.subterms, t.location.isSome
  /-- Beneath the root there is no block. -/
  flat : ∀ t ∈ root.subterms.tail, ¬t.IsBlock
  block : ∀ ts l, root = .block ts l →
    2 ≤ ts.length ∧ (∀ t ∈ ts, ¬t.IsBlock) ∧ ∀ t ∈ ts.dropLast, t.IsWrite
  noSelfWrite : ∀ t ∈ root.subterms, ¬t.IsSelfWrite

/-- The normal form of the terms inside a function. -/
structure Plain (t : Term) : Prop where
  located : ∀ u ∈ t.subterms, u.location.isSome
  blockless : ∀ u ∈ t.subterms, ¬u.IsBlock
  noSelfWrite : ∀ u ∈ t.subterms, ¬u.IsSelfWrite

lemma mem_subterms_self (t : Term) : t ∈ t.subterms := by
  cases t <;> exact List.mem_cons_self

/-! ### Terms inside a function -/

lemma plain_of_isPure {t : Term} (hpure : t.isPure = true) (hl : t.location.isSome) : t.Plain := by
  have hself : t.subterms = [t] := by cases t <;> first | rfl | cases hpure
  refine ⟨?_, ?_, ?_⟩
  all_goals
    intro u hu
    rw [hself, List.mem_singleton] at hu
    subst hu
  · exact hl
  · cases u <;> first | exact id | cases hpure
  · cases u <;> first | exact id | cases hpure

/-- A term over a single one is plain if that one is and nothing is wrong with the term itself. -/
lemma Plain.cons {t v : Term} (hv : v.Plain) (hsub : t.subterms = t :: v.subterms)
    (hl : t.location.isSome) (hblock : ¬t.IsBlock) (hself : ¬t.IsSelfWrite) : t.Plain := by
  refine ⟨?_, ?_, ?_⟩
  all_goals
    intro u hu
    rw [hsub, List.mem_cons] at hu
    rcases hu with rfl | hu
  · exact hl
  · exact hv.located u hu
  · exact hblock
  · exact hv.blockless u hu
  · exact hself
  · exact hv.noSelfWrite u hu

/-- An assignment of a variable to itself is not written, so what is written is something else. -/
lemma not_isSelfWrite_of_promote? {t v u : Term} (hsame : t.isSameVariable v = false)
    (hu : t.promote? v = some u) : ¬u.IsSelfWrite := by
  cases t <;> simp only [promote?, reduceCtorEq, Option.some.injEq] at hu
  all_goals
    subst hu
    cases v <;> simp_all [isSameVariable, IsSelfWrite]

lemma Plain.assign {t v u : Term} (ht : t.Plain) (hv : v.Plain)
    (hu : (Builder.assign t v).toOption = some u) : u.Plain := by
  have hl : t.location.isSome := ht.located t t.mem_subterms_self
  rcases Builder.assign_eq_some.1 hu with ⟨-, rfl⟩ | ⟨hsame, hu⟩
  · exact plain_of_isPure rfl hl
  · have hself := not_isSelfWrite_of_promote? hsame hu
    cases t <;> simp only [promote?, reduceCtorEq, Option.some.injEq] at hu
    all_goals
      subst hu
      exact hv.cons rfl hl id hself

lemma Plain.normal {t : Term} (h : t.Plain) : t.Normal := by
  refine ⟨h.located, ?_, ?_, h.noSelfWrite⟩
  · intro u hu
    exact h.blockless u (List.mem_of_mem_tail hu)
  · rintro ts l rfl
    exact absurd trivial (h.blockless _ (mem_subterms_self _))

/-! ### Roots of functions -/

lemma isWrite_of_not_isPure {t : Term} (hpure : t.isPure = false) (hblock : ¬t.IsBlock) :
    t.IsWrite := by
  cases t <;> first | exact trivial | exact absurd trivial hblock | cases hpure

lemma normal_block {ts : List Term} (h : ∀ t ∈ ts, t.Plain) (hlen : 2 ≤ ts.length)
    (hwrites : ∀ t ∈ ts.dropLast, t.IsWrite) (l : Location) : (block ts (some l)).Normal := by
  have hbeneath : ∀ u, u ∈ (block ts (some l)).subterms.tail → ∃ v ∈ ts, u ∈ v.subterms := by
    intro u hu
    simpa only [subterms, subtermsAll_eq_flatMap, List.tail_cons, List.mem_flatMap] using hu
  refine ⟨?_, ?_, ?_, ?_⟩
  · intro u hu
    rcases List.mem_cons.1 hu with rfl | hu
    · rfl
    · obtain ⟨v, hv, hu⟩ := hbeneath u hu
      exact (h v hv).located u hu
  · intro u hu
    obtain ⟨v, hv, hu⟩ := hbeneath u hu
    exact (h v hv).blockless u hu
  · rintro ts' m ⟨⟩
    exact ⟨hlen, fun u hu => (h u hu).blockless u u.mem_subterms_self, hwrites⟩
  · intro u hu
    rcases List.mem_cons.1 hu with rfl | hu
    · exact id
    · obtain ⟨v, hv, hu⟩ := hbeneath u hu
      exact (h v hv).noSelfWrite u hu

/-- Closing a body leaves a root in normal form. -/
lemma normal_closeBody {terms : List Term} (h : ∀ t ∈ terms, t.Plain) (l : Location) :
    (closeBody terms l).Normal := by
  rw [closeBody]
  cases hkept : terms.dropLast.filter fun t => !t.isPure with
  | nil =>
    cases hlast : terms.getLast? with
    | none => exact (plain_of_isPure rfl rfl).normal
    | some t => exact (h t (List.mem_of_getLast? hlast)).normal
  | cons k ks =>
    have hfilter : ∀ t ∈ k :: ks, t ∈ terms ∧ t.isPure = false := by
      intro t ht
      rw [← hkept, List.mem_filter, Bool.not_eq_true'] at ht
      exact ⟨(List.dropLast_sublist _).subset ht.1, ht.2⟩
    -- Something comes before the last statement, so there is a last one.
    obtain ⟨t, ht⟩ : ∃ t, terms.getLast? = some t := by
      apply Option.isSome_iff_exists.1
      rw [List.getLast?_isSome]
      exact List.ne_nil_of_mem (hfilter k List.mem_cons_self).1
    have hplain : ∀ u ∈ k :: ks ++ [t], u.Plain := by
      intro u hu
      rcases List.mem_append.1 hu with hu | hu
      · exact h u (hfilter u hu).1
      · rw [List.mem_singleton.1 hu]
        exact h t (List.mem_of_getLast? ht)
    simp only [ht, Option.toList_some]
    refine normal_block hplain (by simp) ?_ l
    intro u hu
    rw [List.dropLast_concat] at hu
    have hblock := (hplain u (List.mem_append_left _ hu)).blockless u u.mem_subterms_self
    exact isWrite_of_not_isPure (hfilter u hu).2 hblock

/-! ### Renumbering -/

mutual

/-- The subterms of a renamed term are those of the term, renamed. -/
theorem subterms_rename (r : Renaming) (t : Term) :
    (t.rename r).subterms = t.subterms.map (rename r) := by
  match t with
  | value v l | getLocal i l | getGlobal n l | getFunction i l => rfl
  | setLocal i v l | setGlobal n v l =>
    simp only [rename, subterms, subterms_rename r v, List.map_cons]
  | block ts l =>
    simp only [rename, subterms, renameAll_eq_map, subtermsAll_eq_flatMap, List.map_cons,
      subtermsAll_rename r ts]

theorem subtermsAll_rename (r : Renaming) (ts : List Term) :
    (ts.map (rename r)).flatMap subterms = (ts.flatMap subterms).map (rename r) := by
  match ts with
  | [] => rfl
  | t :: ts =>
    simp only [List.map_cons, List.flatMap_cons, List.map_append, subterms_rename r t,
      subtermsAll_rename r ts]

end

@[simp] lemma isBlock_rename (r : Renaming) (t : Term) : (t.rename r).IsBlock ↔ t.IsBlock := by
  cases t <;> rfl

@[simp] lemma isWrite_rename (r : Renaming) (t : Term) : (t.rename r).IsWrite ↔ t.IsWrite := by
  cases t <;> rfl

@[simp] lemma isSelfWrite_rename (ρ : Nat → Nat) (t : Term) :
    (t.rename { function := ρ }).IsSelfWrite ↔ t.IsSelfWrite := by
  cases t with
  | setLocal i v l | setGlobal n v l => cases v <;> rfl
  | _ => rfl

/-- New references leave the normal form as it is. -/
lemma Normal.rename {t : Term} (h : t.Normal) (ρ : Nat → Nat) :
    (t.rename { function := ρ }).Normal := by
  have hsub := subterms_rename { function := ρ } t
  refine ⟨?_, ?_, ?_, ?_⟩
  · intro u hu
    rw [hsub] at hu
    obtain ⟨v, hv, rfl⟩ := List.mem_map.1 hu
    rw [location_rename]
    exact h.located v hv
  · intro u hu
    rw [hsub, ← List.map_tail] at hu
    obtain ⟨v, hv, rfl⟩ := List.mem_map.1 hu
    rw [isBlock_rename]
    exact h.flat v hv
  · intro ts l hroot
    cases t <;> simp only [Term.rename, reduceCtorEq, block.injEq] at hroot
    obtain ⟨rfl, -⟩ := hroot
    obtain ⟨hlen, hblocks, hwrites⟩ := h.block _ _ rfl
    rw [renameAll_eq_map, List.length_map, ← List.map_dropLast]
    refine ⟨hlen, ?_, ?_⟩
    · intro u hu
      obtain ⟨v, hv, rfl⟩ := List.mem_map.1 hu
      rw [isBlock_rename]
      exact hblocks v hv
    · intro u hu
      obtain ⟨v, hv, rfl⟩ := List.mem_map.1 hu
      rw [isWrite_rename]
      exact hwrites v hv
  · intro u hu
    rw [hsub] at hu
    obtain ⟨v, hv, rfl⟩ := List.mem_map.1 hu
    rw [isSelfWrite_rename]
    exact h.noSelfWrite v hv

end Term

/-! ### Lowered code -/

lemma Variable.plain_get (x : Variable) (l : Location) : (x.get l).Plain := by
  cases x <;> exact Term.plain_of_isPure rfl rfl

namespace Resolved

mutual

/-- Lowering yields plain terms, and functions in normal form. -/
theorem plain_lower? (r : Resolved) {fs fs' : List Function} {pre : List Term} {t : Term}
    (h : r.lower? fs = some (fs', pre, t)) (hfs : ∀ f ∈ fs, f.root.Normal) :
    (∀ f ∈ fs', f.root.Normal) ∧ (∀ u ∈ pre, u.Plain) ∧ t.Plain := by
  match r with
  | constant v l | declare x l =>
    cases h
    exact ⟨hfs, by simp, Term.plain_of_isPure rfl rfl⟩
  | read x l =>
    cases h
    exact ⟨hfs, by simp, x.plain_get l⟩
  | assign t v =>
    obtain ⟨fs₁, pre₁, t', pre₂, v', ht, hv, hu, rfl⟩ := lower?_assign.1 h
    obtain ⟨hfs₁, hpre₁, ht'⟩ := plain_lower? t ht hfs
    obtain ⟨hfs₂, hpre₂, hv'⟩ := plain_lower? v hv hfs₁
    refine ⟨hfs₂, ?_, ht'.assign hv' hu⟩
    intro u hu
    rcases List.mem_append.1 hu with hu | hu
    · exact hpre₁ u hu
    · exact hpre₂ u hu
  | define x l v =>
    obtain ⟨v', hv, hu⟩ := lower?_define.1 h
    obtain ⟨hfs', hpre, hv'⟩ := plain_lower? v hv hfs
    exact ⟨hfs', hpre, (Term.plain_of_isPure rfl rfl).assign hv' hu⟩
  | scope body l =>
    obtain ⟨terms, hb, rfl, rfl⟩ := lower?_scope.1 h
    obtain ⟨hfs', hterms⟩ := plain_lowerAll? body hb hfs
    refine ⟨hfs', ?_, ?_⟩
    · intro u hu
      exact hterms u ((List.dropLast_sublist _).subset hu)
    · cases hlast : terms.getLast? with
      | none => exact Term.plain_of_isPure rfl rfl
      | some t => exact hterms t (List.mem_of_getLast? hlast)
  | function source arity count body l =>
    obtain ⟨fs₁, terms, hb, rfl, rfl, rfl⟩ := lower?_function.1 h
    obtain ⟨hfs₁, hterms⟩ := plain_lowerAll? body hb hfs
    refine ⟨?_, by simp, Term.plain_of_isPure rfl rfl⟩
    intro f hf
    rcases List.mem_append.1 hf with hf | hf
    · exact hfs₁ f hf
    · rw [List.mem_singleton.1 hf]
      exact Term.normal_closeBody hterms l

theorem plain_lowerAll? (rs : List Resolved) {fs fs' : List Function} {terms : List Term}
    (h : lowerAll? fs rs = some (fs', terms)) (hfs : ∀ f ∈ fs, f.root.Normal) :
    (∀ f ∈ fs', f.root.Normal) ∧ ∀ u ∈ terms, u.Plain := by
  match rs with
  | [] =>
    cases h
    exact ⟨hfs, by simp⟩
  | r :: rs =>
    obtain ⟨fs₁, pre, t, terms', hr, hrs, rfl⟩ := lowerAll?_cons.1 h
    obtain ⟨hfs₁, hpre, ht⟩ := plain_lower? r hr hfs
    obtain ⟨hfs₂, hterms'⟩ := plain_lowerAll? rs hrs hfs₁
    refine ⟨hfs₂, ?_⟩
    intro u hu
    rcases List.mem_append.1 hu with hu | hu
    · exact hpre u hu
    · rcases List.mem_cons.1 hu with rfl | hu
      · exact ht
      · exact hterms' u hu

end

end Resolved

/-! ### Emitted graphs -/

/-- Pruning keeps roots in normal form. -/
lemma Graph.normal_prune {g : Graph} (h : ∀ f ∈ g.functions, f.root.Normal) :
    ∀ f ∈ g.prune.functions, f.root.Normal := by
  intro f' hf'
  rw [functions_prune] at hf'
  obtain ⟨f, hf, rfl⟩ := List.mem_map.1 hf'
  exact (h f ((keptOf_sublist rfl).subset hf)).rename _

/-- Every function of the graph of a text is in normal form. -/
theorem normal_of_parse {lexicon : Lexicon} {source : List UInt8} {g : Graph}
    (h : parse lexicon source = .ok g) : ∀ f ∈ g.functions, f.root.Normal := by
  obtain ⟨b, r, fs, pre, t, -, -, hl, rfl⟩ := parse_eq_ok_iff_lower.1 h
  have hfs := (r.plain_lower? hl (by simp)).1
  exact Graph.normal_prune hfs

/-- A text with statements that have no effect, an assignment of a variable to itself and a block in
the middle of an assignment. -/
def reducible : List UInt8 :=
  Utf8.encode "a\nlet b = c = do \x7b 1; b = 2; fun (x) \x7b x; x = x; d = x; x \x7d \x7d\nb = b; b"

theorem normal_of_parse_reducible :
    ∃ g, parse .standard reducible = .ok g ∧ ∀ f ∈ g.functions, f.root.Normal := by
  have hsome : (parse .standard reducible).toOption.isSome = true := by decide +kernel
  obtain ⟨g, hg⟩ := Option.isSome_iff_exists.1 hsome
  rw [toOption_eq_some] at hg
  exact ⟨g, hg, normal_of_parse hg⟩

end ScriptGraph
