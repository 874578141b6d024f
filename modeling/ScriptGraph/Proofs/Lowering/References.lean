import Mathlib.Data.List.Flatten
import Mathlib.Data.List.Nodup
import ScriptGraph.Proofs.Lowering
import ScriptGraph.Proofs.References
import ScriptGraph.Proofs.Resolution.Frames

/-!
# References of lowered code

Lowering refers to every function that it adds at most once, and from a later function or a term
only. The slots in the terms of a function are below the number of slots of the function.
-/

namespace ScriptGraph

open Resolved

/-! ### Terms of assignments and of bodies -/

lemma Term.callees_of_isRead {t : Term} (h : t.IsRead) : t.callees = [] := by
  cases t <;> first | rfl | cases h

lemma Builder.callees_assign {t v u : Term} (h : (Builder.assign t v).toOption = some u) :
    u.callees = v.callees := by
  rcases Builder.assign_eq_some.1 h with ⟨hsame, rfl⟩ | ⟨-, hp⟩
  · have hv : v.IsRead := by
      cases t <;> cases v <;> simp_all [Term.isSameVariable, Term.IsRead]
    rw [Term.callees_of_isRead hv]
    rfl
  · cases t <;> cases hp <;> rfl

lemma Builder.slots_assign {t v u : Term} (h : (Builder.assign t v).toOption = some u) :
    ∀ i ∈ u.slots, i ∈ t.slots ∨ i ∈ v.slots := by
  rcases Builder.assign_eq_some.1 h with ⟨-, rfl⟩ | ⟨-, hp⟩
  · intro i hi
    cases hi
  · cases t <;> cases hp <;> simp

/-- A block's hoisted terms and its value are its terms, but for the value of an empty one. -/
lemma flatMap_dropLast_append {g : Term → List Nat} (terms : List Term) {t : Term} (ht : g t = []) :
    (terms.dropLast ++ [terms.getLast?.getD t]).flatMap g = terms.flatMap g := by
  cases hlast : terms.getLast? with
  | none =>
    rw [List.getLast?_eq_none_iff] at hlast
    subst hlast
    simp [ht]
  | some u =>
    obtain ⟨ts, rfl⟩ := List.getLast?_eq_some_iff.1 hlast
    rw [List.dropLast_concat]
    rfl

/-- The root of a function is made of some of the terms of its body. -/
lemma exists_sublist_closeBody (terms : List Term) (l : Location) :
    ∃ ts : List Term, ts.Sublist terms ∧ (closeBody terms l).callees = ts.flatMap Term.callees ∧
      (closeBody terms l).slots = ts.flatMap Term.slots := by
  cases hlast : terms.getLast? with
  | none =>
    rw [List.getLast?_eq_none_iff] at hlast
    subst hlast
    exact ⟨[], .refl _, rfl, rfl⟩
  | some t =>
    obtain ⟨ts, rfl⟩ := List.getLast?_eq_some_iff.1 hlast
    rw [closeBody, List.dropLast_concat, hlast]
    cases hkept : ts.filter fun t => !t.isPure with
    | nil => exact ⟨[t], List.sublist_append_right _ _, by simp, by simp⟩
    | cons u us =>
      refine ⟨u :: us ++ [t], ?_, by simp, by simp⟩
      rw [← hkept]
      exact List.filter_sublist.append (.refl _)

/-! ### References -/

/-- What holds of the functions that some code adds from an index on, and of the terms of the code:
they refer to each of these functions at most once and to nothing else, and functions refer to
earlier ones only. -/
structure Lowered (base : Nat) (new : List Function) (terms : List Term) : Prop where
  nodup : (references new ++ terms.flatMap Term.callees).Nodup
  range : ∀ j ∈ references new ++ terms.flatMap Term.callees, base ≤ j ∧ j < base + new.length
  descending : ∀ k f, new[k]? = some f → ∀ j ∈ f.root.callees, j < base + k

lemma Lowered.of_callees_nil (base : Nat) {terms : List Term}
    (h : terms.flatMap Term.callees = []) : Lowered base [] terms := by
  refine ⟨?_, ?_, ?_⟩ <;> simp [references, h]

lemma Lowered.of_callees_eq {base : Nat} {new : List Function} {terms terms' : List Term}
    (h : Lowered base new terms) (heq : terms'.flatMap Term.callees = terms.flatMap Term.callees) :
    Lowered base new terms' :=
  ⟨heq ▸ h.nodup, heq ▸ h.range, h.descending⟩

lemma Lowered.append {base : Nat} {new new' : List Function} {terms terms' : List Term}
    (h : Lowered base new terms) (h' : Lowered (base + new.length) new' terms') :
    Lowered base (new ++ new') (terms ++ terms') := by
  have hperm : (references (new ++ new') ++ (terms ++ terms').flatMap Term.callees).Perm
      ((references new ++ terms.flatMap Term.callees) ++
        (references new' ++ terms'.flatMap Term.callees)) := by
    simp only [references_append, List.flatMap_append, List.append_assoc]
    exact (List.perm_append_comm_assoc _ _ _).append_left _
  have hdisjoint : (references new ++ terms.flatMap Term.callees).Disjoint
      (references new' ++ terms'.flatMap Term.callees) := by
    intro j hj hj'
    have := (h.range j hj).2
    have := (h'.range j hj').1
    omega
  refine ⟨?_, ?_, ?_⟩
  · rw [hperm.nodup_iff]
    exact h.nodup.append h'.nodup hdisjoint
  · intro j hj
    rw [List.length_append]
    rcases List.mem_append.1 (hperm.mem_iff.1 hj) with hj | hj
    · have := h.range j hj
      omega
    · have := h'.range j hj
      omega
  · intro k f hf j hj
    by_cases hk : k < new.length
    · rw [List.getElem?_append_left hk] at hf
      exact h.descending k f hf j hj
    · rw [List.getElem?_append_right (by omega)] at hf
      have := h'.descending _ f hf j hj
      omega

/-- A function that is closed is referred to by one term, and keeps what its body refers to, but for
what is dropped. -/
lemma Lowered.close {base : Nat} {new : List Function} {terms : List Term}
    (h : Lowered base new terms) (count arity : Nat) (l : Location) :
    Lowered base (new ++ [⟨count, arity, closeBody terms l⟩])
      [.getFunction (base + new.length) (some l)] := by
  obtain ⟨ts, hts, hcallees, -⟩ := exists_sublist_closeBody terms l
  have hsub : (references new ++ (closeBody terms l).callees).Sublist
      (references new ++ terms.flatMap Term.callees) := by
    rw [hcallees]
    exact (List.Sublist.refl _).append (hts.flatMap _)
  have hrefs : references (new ++ [⟨count, arity, closeBody terms l⟩]) =
      references new ++ (closeBody terms l).callees := by
    simp [references]
  have hrange : ∀ j ∈ references new ++ (closeBody terms l).callees,
      base ≤ j ∧ j < base + new.length := fun j hj => h.range j (hsub.subset hj)
  refine ⟨?_, ?_, ?_⟩
  · rw [hrefs]
    apply (hsub.nodup h.nodup).append (by simp)
    intro j hj hj'
    have hlt := (hrange j hj).2
    simp only [List.flatMap_cons, List.flatMap_nil, Term.callees_getFunction, List.append_nil,
      List.mem_singleton] at hj'
    omega
  · intro j hj
    rw [hrefs] at hj
    rw [List.length_append, List.length_singleton]
    rcases List.mem_append.1 hj with hj | hj
    · have := hrange j hj
      omega
    · simp only [List.flatMap_cons, List.flatMap_nil, Term.callees_getFunction, List.append_nil,
        List.mem_singleton] at hj
      omega
  · intro k f hf j hj
    by_cases hk : k < new.length
    · rw [List.getElem?_append_left hk] at hf
      exact h.descending k f hf j hj
    · rw [List.getElem?_append_right (by omega)] at hf
      obtain ⟨hk', rfl⟩ := List.getElem?_eq_some_iff.1 hf
      have := hrange j (List.mem_append_right _ (by simpa using hj))
      omega

namespace Resolved

mutual

/-- Lowering adds functions and refers to each of them at most once. -/
theorem lowered_lower? (r : Resolved) {fs fs' : List Function} {pre : List Term} {t : Term}
    (h : r.lower? fs = some (fs', pre, t)) :
    ∃ new, fs' = fs ++ new ∧ Lowered fs.length new (pre ++ [t]) := by
  match r with
  | constant v l | declare x l =>
    cases h
    exact ⟨[], by simp, .of_callees_nil _ (by simp)⟩
  | read x l =>
    cases h
    refine ⟨[], by simp, .of_callees_nil _ ?_⟩
    cases x <;> rfl
  | assign t v =>
    obtain ⟨fs₁, pre₁, t', pre₂, v', ht, hv, hu, rfl⟩ := lower?_assign.1 h
    obtain ⟨new₁, rfl, hnew₁⟩ := lowered_lower? t ht
    obtain ⟨new₂, rfl, hnew₂⟩ := lowered_lower? v hv
    rw [List.length_append] at hnew₂
    have hread : t'.IsRead := Builder.exists_assign.1 ⟨_, hu⟩
    refine ⟨new₁ ++ new₂, by simp, (hnew₁.append hnew₂).of_callees_eq ?_⟩
    simp [Builder.callees_assign hu, Term.callees_of_isRead hread]
  | define x l v =>
    obtain ⟨v', hv, hu⟩ := lower?_define.1 h
    obtain ⟨new, rfl, hnew⟩ := lowered_lower? v hv
    refine ⟨new, rfl, hnew.of_callees_eq ?_⟩
    simp [Builder.callees_assign hu]
  | scope body l =>
    obtain ⟨terms, hb, rfl, rfl⟩ := lower?_scope.1 h
    obtain ⟨new, rfl, hnew⟩ := lowered_lowerAll? body hb
    exact ⟨new, rfl, hnew.of_callees_eq (flatMap_dropLast_append terms rfl)⟩
  | function source arity count body l =>
    obtain ⟨fs₁, terms, hb, rfl, rfl, rfl⟩ := lower?_function.1 h
    obtain ⟨new, rfl, hnew⟩ := lowered_lowerAll? body hb
    refine ⟨new ++ [⟨count, arity, closeBody terms l⟩], by simp, ?_⟩
    rw [List.length_append]
    exact hnew.close count arity l

theorem lowered_lowerAll? (rs : List Resolved) {fs fs' : List Function} {terms : List Term}
    (h : lowerAll? fs rs = some (fs', terms)) :
    ∃ new, fs' = fs ++ new ∧ Lowered fs.length new terms := by
  match rs with
  | [] =>
    cases h
    exact ⟨[], by simp, .of_callees_nil _ rfl⟩
  | r :: rs =>
    obtain ⟨fs₁, pre, t, terms', hr, hrs, rfl⟩ := lowerAll?_cons.1 h
    obtain ⟨new₁, rfl, hnew₁⟩ := lowered_lower? r hr
    obtain ⟨new₂, rfl, hnew₂⟩ := lowered_lowerAll? rs hrs
    rw [List.length_append] at hnew₂
    refine ⟨new₁ ++ new₂, by simp, ?_⟩
    simpa using hnew₁.append hnew₂

end

end Resolved

/-! ### Slots -/

/-- Whether the parameters of a function and the slots in its terms are among its slots. -/
structure Function.Bounded (f : Function) : Prop where
  arity : f.arity ≤ f.localCount
  slots : ∀ i ∈ f.root.slots, i < f.localCount

lemma slot_lt_of_denote {f : Frame} (hf : f.Proper) {n : String} {l : Location} :
    ∀ i ∈ ((f.denote n).get l).slots, i < f.count := by
  intro i hi
  cases hx : f.denote n with
  | free m =>
    rw [hx] at hi
    cases hi
  | bound x =>
    rw [hx] at hi
    cases List.mem_singleton.1 hi
    exact lt_of_lt_of_le (hf.slot_lt (Frame.mem_locals_of_denote hx)) hf.count

lemma slot_lt_of_declare? {f f' : Frame} {n : String} (h : f.declare? n = some f') :
    f.fresh.slot < f'.count := by
  obtain ⟨b, outer, -, -, rfl⟩ := Frame.declare?_eq_some.1 h
  exact lt_of_lt_of_le (Nat.lt_succ_self f.next) (le_max_right _ _)

/-- The root of a function has slots of its body only. -/
lemma slots_closeBody {terms : List Term} {l : Location} {i : Nat}
    (hi : i ∈ (closeBody terms l).slots) : i ∈ terms.flatMap Term.slots := by
  obtain ⟨ts, hts, -, hslots⟩ := exists_sublist_closeBody terms l
  rw [hslots] at hi
  exact (hts.flatMap _).subset hi

namespace Code

mutual

/-- The terms of some code use slots of its function only, and so do the functions in it. -/
theorem bounded_lower? (c : Code) {f f' : Frame} {r : Resolved} {fs fs' : List Function}
    {pre : List Term} {t : Term} (hf : f.Proper) (hr : c.resolve? f = some (f', r))
    (hl : r.lower? fs = some (fs', pre, t)) (hfs : ∀ g ∈ fs, g.Bounded) :
    (∀ g ∈ fs', g.Bounded) ∧ ∀ i ∈ (pre ++ [t]).flatMap Term.slots, i < f'.count := by
  match c with
  | constant v l =>
    cases hr
    cases hl
    exact ⟨hfs, by simp⟩
  | read n l =>
    cases hr
    cases hl
    refine ⟨hfs, ?_⟩
    simpa using slot_lt_of_denote hf
  | assign t v =>
    obtain ⟨f₁, t', v', ht, hv, rfl⟩ := resolve?_assign.1 hr
    obtain ⟨fs₁, pre₁, x, pre₂, y, hx, hy, hu, rfl⟩ := Resolved.lower?_assign.1 hl
    obtain ⟨hfs₁, hslots₁⟩ := bounded_lower? t hf ht hx hfs
    obtain ⟨hfs₂, hslots₂⟩ := bounded_lower? v (resolve?_proper t ht hf) hv hy hfs₁
    have hcount : f₁.count ≤ f'.count := (resolve?_follows v hv).count
    refine ⟨hfs₂, ?_⟩
    simp only [List.flatMap_append, List.flatMap_cons, List.flatMap_nil, List.append_nil,
      List.mem_append] at hslots₁ hslots₂ ⊢
    rintro i ((hi | hi) | hi)
    · exact lt_of_lt_of_le (hslots₁ i (.inl hi)) hcount
    · exact hslots₂ i (.inl hi)
    · rcases Builder.slots_assign hu i hi with hi | hi
      · exact lt_of_lt_of_le (hslots₁ i (.inr hi)) hcount
      · exact hslots₂ i (.inr hi)
  | declare n l =>
    obtain ⟨hd, rfl⟩ := resolve?_declare.1 hr
    cases hl
    refine ⟨hfs, ?_⟩
    simpa using slot_lt_of_declare? hd
  | define n l v =>
    obtain ⟨f₁, v', hv, hd, rfl⟩ := resolve?_define.1 hr
    obtain ⟨y, hy, hu⟩ := Resolved.lower?_define.1 hl
    obtain ⟨hfs₁, hslots⟩ := bounded_lower? v hf hv hy hfs
    have hcount : f₁.count ≤ f'.count := (Frame.Follows.of_declare? hd).count
    refine ⟨hfs₁, ?_⟩
    simp only [List.flatMap_append, List.flatMap_cons, List.flatMap_nil, List.append_nil,
      List.mem_append] at hslots ⊢
    rintro i (hi | hi)
    · exact lt_of_lt_of_le (hslots i (.inl hi)) hcount
    · rcases Builder.slots_assign hu i hi with hi | hi
      · cases List.mem_singleton.1 hi
        exact slot_lt_of_declare? hd
      · exact lt_of_lt_of_le (hslots i (.inr hi)) hcount
  | scope body l =>
    obtain ⟨inner, rs, hb, rfl, rfl⟩ := resolve?_scope.1 hr
    obtain ⟨terms, hterms, rfl, rfl⟩ := Resolved.lower?_scope.1 hl
    obtain ⟨hfs₁, hslots⟩ := bounded_lowerAll? body hf.enter hb hterms hfs
    refine ⟨hfs₁, ?_⟩
    rwa [flatMap_dropLast_append terms (g := Term.slots) rfl]
  | function ps body l =>
    obtain ⟨start, inner, rs, hs, hb, rfl, rfl⟩ := resolve?_function.1 hr
    obtain ⟨fs₁, terms, hterms, rfl, rfl, rfl⟩ := Resolved.lower?_function.1 hl
    obtain ⟨hstart, hnext⟩ := Frame.proper_initial.declareAll? hs
    obtain ⟨hfs₁, hslots⟩ := bounded_lowerAll? body hstart hb hterms hfs
    refine ⟨?_, by simp⟩
    intro g hg
    rcases List.mem_append.1 hg with hg | hg
    · exact hfs₁ g hg
    · cases List.mem_singleton.1 hg
      refine ⟨?_, fun i hi => hslots i (slots_closeBody hi)⟩
      calc
        ps.length = start.next := by simp [hnext, Frame.initial]
        _ ≤ start.count := hstart.count
        _ ≤ inner.count := (resolveAll?_follows body hb).count

theorem bounded_lowerAll? (cs : List Code) {f f' : Frame} {rs : List Resolved}
    {fs fs' : List Function} {terms : List Term} (hf : f.Proper)
    (hr : resolveAll? f cs = some (f', rs)) (hl : Resolved.lowerAll? fs rs = some (fs', terms))
    (hfs : ∀ g ∈ fs, g.Bounded) :
    (∀ g ∈ fs', g.Bounded) ∧ ∀ i ∈ terms.flatMap Term.slots, i < f'.count := by
  match cs with
  | [] =>
    cases hr
    cases hl
    exact ⟨hfs, by simp⟩
  | c :: cs =>
    obtain ⟨f₁, r, rs', hc, hcs, rfl⟩ := resolveAll?_cons.1 hr
    obtain ⟨fs₁, pre, t, terms', ht, hterms, rfl⟩ := Resolved.lowerAll?_cons.1 hl
    obtain ⟨hfs₁, hslots₁⟩ := bounded_lower? c hf hc ht hfs
    obtain ⟨hfs₂, hslots₂⟩ := bounded_lowerAll? cs (resolve?_proper c hc hf) hcs hterms hfs₁
    refine ⟨hfs₂, ?_⟩
    intro i hi
    rw [List.append_cons, List.flatMap_append] at hi
    rcases List.mem_append.1 hi with hi | hi
    · exact lt_of_lt_of_le (hslots₁ i hi) (resolveAll?_follows cs hcs).count
    · exact hslots₂ i hi

end

end Code

end ScriptGraph
