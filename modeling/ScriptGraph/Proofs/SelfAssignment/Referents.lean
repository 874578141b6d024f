import ScriptGraph.Proofs.Evaluation
import ScriptGraph.Proofs.Scoping

/-!
# What code denotes

A name denotes a variable, and so does a block that ends in one. The variables in scope at a place
hold the slots from zero on, the earliest first, so the slot of a local variable is its rank, the
number of those in scope before it. Two variables have one slot at a place if they are one, or if
they have one rank and neither is in scope there any more.
-/

namespace ScriptGraph

/-! ### What code denotes -/

/-- The local variables that are in scope at a place, the earliest first. -/
def Place.inScope (place : Place) : List Declaration := place.visible.reverse.flatten

/-- A variable of a text. A local one is given with the number of those in scope before it. -/
inductive Referent where
  | bound (d : Declaration) (rank : Nat)
  | free (name : String)

/-- The variable whose content some code at a place yields: a name yields that of its innermost
declaration, a declaration without a value its own, and a block what its last statement yields. -/
inductive Place.Denotes : Place → Code → Referent → Prop
  | bound {place : Place} {n : String} {l : Location} {d : Declaration} {rank : Nat}
      (hd : Innermost n place.visible d) (hrank : place.inScope[rank]? = some d) :
      Denotes place (.read n l) (.bound d rank)
  | free {place : Place} {n : String} {l : Location}
      (hn : ∀ ds ∈ place.visible, ∀ d ∈ ds, d.name ≠ n) : Denotes place (.read n l) (.free n)
  | declared {place : Place} {n : String} {l : Location} :
      Denotes place (.declare n l) (.bound ⟨n, l, place.issued⟩ place.inScope.length)
  | last {place : Place} {before : List Code} {c : Code} {l : Location} {x : Referent}
      (h : Denotes (.scope before [] l :: place) c x) :
      Denotes place (.scope (before ++ [c]) l) x

namespace Referent

/-- Whether two variables of a text are one: the same declaration, or globals of one name. -/
def IsSame : Referent → Referent → Prop
  | bound d _, bound d' _ => d = d'
  | free n, free n' => n = n'
  | _, _ => False

/-- Whether two local variables, neither of them in scope at a place, are different and have as many
variables in scope before them. -/
def Confused (place : Place) : Referent → Referent → Prop
  | bound d rank, bound d' rank' =>
    d ≠ d' ∧ rank = rank' ∧ d ∉ place.inScope ∧ d' ∉ place.inScope
  | _, _ => False

/-- Whether a variable of the resolved code is the one that a variable of the text becomes. -/
def Meets : Referent → Variable → Prop
  | bound d rank, .bound x => d.Takes rank ∧ x.slot = rank
  | free n, .free m => n = m
  | _, _ => False

/-- Whether a local variable is in scope at a place in the order of its rank, or has all those in
scope there before it. -/
def Ranked (place : Place) : Referent → Prop
  | bound d rank => place.inScope[rank]? = some d ∨ place.inScope.length ≤ rank
  | free _ => True

end Referent

/-! ### Ranks and slots -/

/-- A declaration takes one slot. -/
lemma Declaration.Takes.unique {d : Declaration} {s s' : Nat} (h : d.Takes s) (h' : d.Takes s') :
    s = s' := by
  obtain ⟨m, b, hrun, hdeclare⟩ := h
  obtain ⟨m', b', hrun', hdeclare'⟩ := h'
  cases hrun.symm.trans hrun'
  cases hdeclare.symm.trans hdeclare'
  rfl

/-- The variables in scope hold the slots from zero on, the earliest first. -/
lemma Frame.Holds.takes_range {f : Frame} {scopes : List (List Declaration)} (h : f.Holds scopes)
    (hf : f.Proper) :
    List.Forall₂ Declaration.Takes scopes.reverse.flatten (List.range f.next) := by
  have hflat := List.rel_flatten h.blocks
  have htakes : List.Forall₂ Declaration.Takes (scopes.map List.reverse).flatten
      (f.locals.map Local.slot) := by
    rw [Frame.locals, List.map_map, List.forall₂_map_right_iff]
    exact hflat.imp fun _ _ hp => hp.2
  rw [hf.slots, ← List.forall₂_reverse_iff, List.reverse_reverse, List.reverse_flatten,
    List.map_map] at htakes
  simpa using htakes

namespace Machine.At

variable {m m' : Machine} {f f' : Frame} {place : Place}

lemma length_inScope (h : m.At place.issued f place.visible) : place.inScope.length = f.next := by
  have hlen := (h.holds.takes_range h.proper).length_eq
  rwa [List.length_range] at hlen

/-- The slot of a variable in scope is its rank. -/
lemma takes_rank (h : m.At place.issued f place.visible) {rank : Nat} {d : Declaration}
    (hd : place.inScope[rank]? = some d) : d.Takes rank := by
  obtain ⟨hlt, rfl⟩ := List.getElem?_eq_some_iff.1 hd
  have htakes := h.holds.takes_range h.proper
  have hlt' : rank < (List.range f.next).length := htakes.length_eq ▸ hlt
  have hget := htakes.get hlt hlt'
  rwa [List.get_eq_getElem, List.get_eq_getElem, List.getElem_range] at hget

end Machine.At

/-- A variable that is not in scope at a place has all those in scope there before it. -/
lemma Place.Denotes.ranked {place : Place} {c : Code} {x : Referent} (h : place.Denotes c x) :
    x.Ranked place := by
  induction h with
  | bound hd hrank => exact .inl hrank
  | free hn => trivial
  | declared => exact .inr (Nat.le_refl _)
  | @last place before c l x h ih =>
    cases x with
    | free n => trivial
    | bound d rank =>
      have hsplit : Place.inScope (.scope before [] l :: place) = place.inScope ++
          Declaration.ofStatements (place.issued ++ [.pushBlock true]) before := by
        simp [Place.inScope, Place.visible]
      rw [Referent.Ranked, hsplit] at ih
      rcases Nat.lt_or_ge rank place.inScope.length with hlt | hle
      · rw [List.getElem?_append_left hlt, List.length_append] at ih
        exact ih.imp_right fun hle => absurd hle (by omega)
      · exact .inr hle

/-- What a name denotes is confused with nothing. -/
lemma Place.Denotes.not_confused {place : Place} {s : Surrounding} {n : String} {l : Location}
    {x y : Referent} (h : Place.Denotes (s :: place) (.read n l) x)
    (hs : Place.visible (s :: place) = place.visible) : ¬x.Confused place y := by
  cases h with
  | free hn => exact id
  | bound hd hrank =>
    rw [Place.inScope, hs] at hrank
    have hmem : _ ∈ place.inScope := List.mem_of_getElem? hrank
    cases y with
    | free n => exact id
    | bound d' rank' => exact fun hconfused => hconfused.2.2.1 hmem

/-- Whether the variable that some code at a place denotes is a given one of the resolved code. -/
structure Place.Meets (place : Place) (c : Code) (v? : Option Variable) : Prop where
  forth : ∀ x, place.Denotes c x → ∃ v, v? = some v ∧ x.Meets v
  back : ∀ v, v? = some v → ∃ x, place.Denotes c x ∧ x.Meets v

namespace Machine.At

variable {m m' : Machine} {f f' : Frame} {place : Place}

lemma bound_meets (h : m.At place.issued f place.visible) {n : String} {d : Declaration}
    {rank : Nat} (hd : Innermost n place.visible d) (hrank : place.inScope[rank]? = some d) :
    (Referent.bound d rank).Meets (f.denote n) := by
  obtain ⟨x, hx, htakes⟩ := h.holds.find?_of_innermost hd
  rw [Frame.denote, hx]
  exact ⟨h.takes_rank hrank, htakes.unique (h.takes_rank hrank)⟩

lemma free_meets (h : m.At place.issued f place.visible) {n : String}
    (hn : ∀ ds ∈ place.visible, ∀ d ∈ ds, d.name ≠ n) :
    (Referent.free n).Meets (f.denote n) := by
  rw [Frame.denote, h.holds.find?_eq_none hn]
  rfl

/-- The machine comes to the last statement of a block. -/
lemma last (h : m.At place.issued f place.visible) {before : List Code} {c : Code} {l : Location}
    (hbefore : Code.TidyAll before)
    (hrun : m.run? (Code.scope (before ++ [c]) l).instructions = some m') {inner : Frame}
    {rs : List Resolved} (hrs : Code.resolveAll? f.enter (before ++ [c]) = some (inner, rs)) :
    ∃ (m₁ m₂ : Machine) (f₁ : Frame) (r : Resolved),
      m₁.At (Place.issued (.scope before [] l :: place)) f₁
        (Place.visible (.scope before [] l :: place)) ∧
      m₁.run? c.instructions = some m₂ ∧ c.resolve? f₁ = some (inner, r) ∧
      Resolved.denotesLast? rs = r.denotes? := by
  obtain ⟨f₁, rs₁, r, hrs₁, hr, rfl⟩ := Code.resolveAll?_concat.1 hrs
  rw [Code.instructions, List.cons_append, run?_pushBlock, Code.instructionsAll_append,
    List.append_assoc, run?_append_eq_some] at hrun
  obtain ⟨m₁, hm₁, hrest⟩ := hrun
  rw [Code.instructionsAll, List.append_assoc, run?_append_eq_some] at hrest
  obtain ⟨m₂, hm₂, -⟩ := hrest
  obtain ⟨f₁', rs₁', hrs₁', hat⟩ := h.scope.statements hbefore hm₁
  cases hrs₁.symm.trans hrs₁'
  have hissued : Place.issued (.scope before [] l :: place) =
      place.issued ++ [.pushBlock true] ++ Code.instructionsAll before := by
    simp [Place.issued, Surrounding.opening]
  rw [hissued]
  exact ⟨m₁, m₂, f₁, r, hat, hm₂, hr, Resolved.denotesLast?_concat rs₁ r⟩

/-- The resolved code yields the variable that the code denotes. -/
theorem meets (c : Code) {m m' : Machine} {f f' : Frame} {r : Resolved} {place : Place}
    (h : m.At place.issued f place.visible) (hc : c.Tidy)
    (hrun : m.run? c.instructions = some m') (hr : c.resolve? f = some (f', r)) :
    place.Meets c r.denotes? := by
  match c with
  | .constant v l =>
    cases hr
    exact ⟨nofun, nofun⟩
  | .assign t v =>
    obtain ⟨f₁, t', v', -, -, rfl⟩ := Code.resolve?_assign.1 hr
    exact ⟨nofun, nofun⟩
  | .define n l v =>
    obtain ⟨f₁, v', -, -, rfl⟩ := Code.resolve?_define.1 hr
    exact ⟨nofun, nofun⟩
  | .function ps body l =>
    obtain ⟨start, inner, rs, -, -, -, rfl⟩ := Code.resolve?_function.1 hr
    exact ⟨nofun, nofun⟩
  | .read n l =>
    cases hr
    constructor
    · intro x hx
      cases hx with
      | bound hd hrank => exact ⟨_, rfl, h.bound_meets hd hrank⟩
      | free hn => exact ⟨_, rfl, h.free_meets hn⟩
    · intro v hv
      cases hv
      by_cases hn : ∃ ds ∈ place.visible, ∃ d ∈ ds, d.name = n
      · obtain ⟨d, hd, -⟩ := h.holds.existsUnique_innermost hn
        obtain ⟨ds, hds, hmem, -⟩ := hd.exists_mem
        have hscope : d ∈ place.inScope :=
          List.mem_flatten.2 ⟨ds, List.mem_reverse.2 hds, hmem⟩
        obtain ⟨rank, hrank⟩ := List.getElem?_of_mem hscope
        exact ⟨_, .bound hd hrank, h.bound_meets hd hrank⟩
      · push Not at hn
        exact ⟨_, .free hn, h.free_meets hn⟩
  | .declare n l =>
    obtain ⟨hd, rfl⟩ := Code.resolve?_declare.1 hr
    have hmeets : (Referent.bound ⟨n, l, place.issued⟩ place.inScope.length).Meets
        (.bound f.fresh) := by
      rw [h.length_inScope]
      exact ⟨h.takes hd l, rfl⟩
    constructor
    · intro x hx
      cases hx
      exact ⟨_, rfl, hmeets⟩
    · intro v hv
      cases hv
      exact ⟨_, .declared, hmeets⟩
  | .scope body l =>
    obtain ⟨inner, rs, hb, -, rfl⟩ := Code.resolve?_scope.1 hr
    rcases List.eq_nil_or_concat' body with rfl | ⟨before, c₀, rfl⟩
    · cases hb
      refine ⟨?_, nofun⟩
      intro x hx
      generalize hempty : Code.scope [] l = c at hx
      cases hx with
      | last hx => simp at hempty
      | _ => cases hempty
    · obtain ⟨hbefore, hlast, -⟩ := Code.tidyAll_append.1 hc
      obtain ⟨m₁, m₂, f₁, r, hat, hrun₀, hr₀, hdenotes⟩ := h.last hbefore hrun hb
      obtain ⟨hforth, hback⟩ := meets c₀ hat hlast hrun₀ hr₀
      rw [Resolved.denotes?, hdenotes]
      constructor
      · intro x hx
        generalize hscope : Code.scope (before ++ [c₀]) l = c at hx
        cases hx with
        | last hx =>
          obtain ⟨hbody, rfl⟩ := Code.scope.inj hscope
          obtain ⟨rfl, hc₀⟩ := List.append_inj' hbody rfl
          cases hc₀
          exact hforth x hx
        | _ => cases hscope
      · intro v hv
        obtain ⟨x, hx, hmeets⟩ := hback v hv
        exact ⟨x, .last hx, hmeets⟩
termination_by sizeOf c
decreasing_by
  subst_vars
  have hlt := List.sizeOf_lt_of_mem (List.mem_append_right before (List.mem_singleton_self c₀))
  rw [Code.scope.sizeOf_spec]
  omega

/-- A variable of a rank is in scope only if it is the one of this rank there. -/
lemma notMem_inScope (h : m.At place.issued f place.visible) {d : Declaration} {rank : Nat}
    (htakes : d.Takes rank) (hle : place.inScope.length ≤ rank) : d ∉ place.inScope := by
  intro hmem
  obtain ⟨rank', hrank'⟩ := List.getElem?_of_mem hmem
  obtain ⟨hlt, -⟩ := List.getElem?_eq_some_iff.1 hrank'
  have := htakes.unique (h.takes_rank hrank')
  omega

/-- Variables of the resolved code are taken for one exactly if those of the text are one, or if
they are confused. -/
lemma isSame_iff (h : m.At place.issued f place.visible) {x y : Referent} {v w : Variable}
    (hx : x.Meets v) (hy : y.Meets w) (hxr : x.Ranked place) (hyr : y.Ranked place) :
    v.isSame w = true ↔ x.IsSame y ∨ x.Confused place y := by
  match x, y, v, w with
  | .bound d rank, .bound d' rank', .bound z, .bound z' =>
    obtain ⟨htakes, hslot⟩ := hx
    obtain ⟨htakes', hslot'⟩ := hy
    rw [Variable.isSame, beq_iff_eq, hslot, hslot']
    constructor
    · rintro rfl
      by_cases hd : d = d'
      · exact .inl hd
      -- Of two variables of one rank, at most one can be in scope, and then the other would be.
      · rcases hxr with hxr | hxr
        · rcases hyr with hyr | hyr
          · exact absurd (Option.some.inj (hxr.symm.trans hyr)) hd
          · rw [List.getElem?_eq_none hyr] at hxr
            cases hxr
        · exact .inr ⟨hd, rfl, h.notMem_inScope htakes hxr, h.notMem_inScope htakes' hxr⟩
    · rintro (rfl | ⟨-, rfl, -⟩)
      · exact htakes.unique htakes'
      · rfl
  | .free n, .free n', .free m, .free m' =>
    obtain rfl : n = m := hx
    obtain rfl : n' = m' := hy
    simp [Variable.isSame, Referent.IsSame, Referent.Confused]
  | .bound d rank, .free n, .bound z, .free m | .free n, .bound d rank, .free m, .bound z =>
    simp [Variable.isSame, Referent.IsSame, Referent.Confused]

end Machine.At

end ScriptGraph
