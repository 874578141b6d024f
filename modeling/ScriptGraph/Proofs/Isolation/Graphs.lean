import ScriptGraph.Proofs.WellFormed

/-!
# Graphs side by side

A graph can be put after another one if its references are shifted past the functions of the first.
Pruning keeps exactly the functions that an entry point leads to, and references never lead from one
of the two graphs to the other. So if the first graph has nothing to prune, pruning both is pruning
the second one alone.
-/

namespace ScriptGraph

namespace Graph

/-! ### Reachable functions -/

/-- A visited function is one that the functions to be visited lead to. -/
lemma exists_leads_of_visited (g : Graph) {left work : List Nat} (hleft : left.Nodup) {i : Nat}
    (hi : i ∈ left) (hvisited : i ∉ g.unvisited left work) : ∃ e ∈ work, g.Leads e i := by
  fun_induction unvisited g left work with
  | case1 => exact absurd hi hvisited
  | case2 left k work hk ih =>
    by_cases hik : i = k
    · exact ⟨k, List.mem_cons_self, hik ▸ .refl⟩
    · obtain ⟨e, he, hlead⟩ := ih (hleft.erase k) (hleft.mem_erase_iff.2 ⟨hik, hi⟩) hvisited
      rcases List.mem_append.1 he with he | he
      · exact ⟨k, List.mem_cons_self, hlead.head he⟩
      · exact ⟨e, List.mem_cons_of_mem k he, hlead⟩
  | case3 left k work hk ih =>
    obtain ⟨e, he, hlead⟩ := ih hleft hi hvisited
    exact ⟨e, List.mem_cons_of_mem k he, hlead⟩

/-- Pruning keeps the functions that an entry point leads to. -/
theorem mem_kept_iff_leads {g : Graph} {i : Nat} :
    i ∈ g.kept ↔ i < g.size ∧ ∃ e ∈ g.entryPoints, g.Leads e i := by
  constructor
  · intro hi
    obtain ⟨hlt, hreach⟩ := mem_kept.1 hi
    exact ⟨hlt, exists_leads_of_visited g List.nodup_range (List.mem_range.2 hlt) hreach⟩
  · rintro ⟨hi, e, he, hlead⟩
    induction hlead with
    | refl => exact mem_kept_of_entry hi he
    | tail _ hstep ih => exact mem_kept_of_callee (ih (lt_size_of_mem_callees hstep)) hstep hi

/-! ### One graph after another -/

/-- The renaming that shifts references to functions. -/
def shifted (n : Nat) : Term.Renaming := { function := (n + ·) }

/-- A graph followed by another one, whose references and entry points are shifted. -/
def append (g h : Graph) : Graph where
  functions := g.functions ++ (h.rename (shifted g.size)).functions
  entryPoints := g.entryPoints ++ (h.rename (shifted g.size)).entryPoints

lemma functions_append (g h : Graph) :
    (g.append h).functions =
      g.functions ++ h.functions.map fun f => { f with root := f.root.rename (shifted g.size) } :=
  rfl

lemma entryPoints_append (g h : Graph) :
    (g.append h).entryPoints = g.entryPoints ++ h.entryPoints.map (g.size + ·) := rfl

/-- Graphs one after another. -/
def concat (gs : List Graph) : Graph := gs.foldl append {}

@[simp] lemma concat_nil : concat [] = {} := rfl

lemma concat_snoc (gs : List Graph) (g : Graph) : concat (gs ++ [g]) = (concat gs).append g := by
  simp [concat]

@[simp] lemma append_empty (g : Graph) : g.append {} = g := by
  simp [append, rename]

@[simp] lemma size_append (g h : Graph) : (g.append h).size = g.size + h.size := by
  simp [append, size, rename]

lemma mem_entryPoints_append {g h : Graph} {i : Nat} :
    i ∈ (g.append h).entryPoints ↔
      i ∈ g.entryPoints ∨ ∃ j ∈ h.entryPoints, g.size + j = i := by
  simp [append, rename, shifted]

lemma callees_append_left {g h : Graph} {i : Nat} (hi : i < g.size) :
    (g.append h).callees i = g.callees i := by
  rw [callees, append, List.getElem?_append_left hi, callees]

lemma callees_append_right (g h : Graph) (j : Nat) :
    (g.append h).callees (g.size + j) = (h.callees j).map (g.size + ·) := by
  have hget : (g.append h).functions[g.size + j]? =
      (h.rename (shifted g.size)).functions[j]? := by
    rw [append, size, List.getElem?_append_right (Nat.le_add_right ..), Nat.add_sub_cancel_left]
  rw [callees, hget]
  exact callees_rename h (shifted g.size) j

/-- References lead from the first graph only to where they lead in it alone. -/
lemma leads_append_left {g h : Graph} {i j : Nat} (hlead : g.Leads i j) :
    (g.append h).Leads i j := by
  induction hlead with
  | refl => exact .refl
  | tail _ hstep ih =>
    refine ih.tail ?_
    rwa [callees_append_left (lt_size_of_mem_callees hstep)]

lemma lt_of_leads_append {g h : Graph} (hrange : ∀ i ∈ references g.functions, i < g.size)
    {i k : Nat} (hi : i < g.size) (hlead : (g.append h).Leads i k) : k < g.size := by
  induction hlead with
  | refl => exact hi
  | tail _ hstep ih =>
    rw [callees_append_left ih] at hstep
    exact hrange _ (mem_references.2 ⟨_, ih, hstep⟩)

lemma leads_append_right {g h : Graph} {j k : Nat} :
    (g.append h).Leads (g.size + j) k ↔ ∃ i, h.Leads j i ∧ g.size + i = k := by
  constructor
  · intro hlead
    induction hlead with
    | refl => exact ⟨j, .refl, rfl⟩
    | tail _ hstep ih =>
      obtain ⟨i, hlead, rfl⟩ := ih
      rw [callees_append_right] at hstep
      obtain ⟨i', hi', rfl⟩ := List.mem_map.1 hstep
      exact ⟨i', hlead.tail hi', rfl⟩
  · rintro ⟨i, hlead, rfl⟩
    induction hlead with
    | refl => exact .refl
    | tail _ hstep ih =>
      refine ih.tail ?_
      rw [callees_append_right]
      exact List.mem_map_of_mem hstep

/-- Whether a graph has no function to prune and no reference out of range. -/
structure Pruned (g : Graph) : Prop where
  inRange : ∀ i ∈ g.entryPoints ++ references g.functions, i < g.size
  reached : ∀ i < g.size, ∃ e ∈ g.entryPoints, g.Leads e i

lemma WellFormed.pruned {g : Graph} {n : Nat} (h : g.WellFormed n) : g.Pruned := by
  refine ⟨h.inRange, ?_⟩
  intro i hi
  obtain ⟨e, ⟨he, hlead⟩, -⟩ := h.existsUnique_entry hi
  exact ⟨e, he, hlead⟩

namespace Pruned

variable {g : Graph} (hg : g.Pruned) (h : Graph)
include hg

/-- Of two graphs, all of the first is kept and of the second what is kept of it alone. -/
lemma mem_kept_append {k : Nat} :
    k ∈ (g.append h).kept ↔ k < g.size ∨ ∃ i ∈ h.kept, g.size + i = k := by
  rw [mem_kept_iff_leads, size_append]
  constructor
  · rintro ⟨hk, e, he, hlead⟩
    rcases mem_entryPoints_append.1 he with he | ⟨j, hj, rfl⟩
    · have hlt := hg.inRange e (List.mem_append_left _ he)
      refine .inl (lt_of_leads_append ?_ hlt hlead)
      intro i hi
      exact hg.inRange i (List.mem_append_right _ hi)
    · obtain ⟨i, hlead', rfl⟩ := leads_append_right.1 hlead
      exact .inr ⟨i, mem_kept_iff_leads.2 ⟨Nat.lt_of_add_lt_add_left hk, j, hj, hlead'⟩, rfl⟩
  · rintro (hk | ⟨i, hi, rfl⟩)
    · obtain ⟨e, he, hlead⟩ := hg.reached k hk
      exact ⟨Nat.lt_add_right _ hk, e, mem_entryPoints_append.2 (.inl he), leads_append_left hlead⟩
    · obtain ⟨hlt, j, hj, hlead⟩ := mem_kept_iff_leads.1 hi
      exact ⟨Nat.add_lt_add_left hlt _, g.size + j, mem_entryPoints_append.2 (.inr ⟨j, hj, rfl⟩),
        leads_append_right.2 ⟨i, hlead, rfl⟩⟩

lemma notMem_unreachable_left {k : Nat} (hk : k < g.size) : k ∉ (g.append h).unreachable :=
  (mem_kept.1 ((hg.mem_kept_append h).2 (.inl hk))).2

lemma mem_unreachable_right {i : Nat} (hi : i < h.size) :
    g.size + i ∈ (g.append h).unreachable ↔ i ∈ h.unreachable := by
  have hkept := hg.mem_kept_append h (k := g.size + i)
  rw [mem_kept, size_append] at hkept
  rw [← not_iff_not]
  constructor
  · intro hreach
    rcases hkept.1 ⟨Nat.add_lt_add_left hi _, hreach⟩ with hlt | ⟨j, hj, heq⟩
    · omega
    · rw [← Nat.add_left_cancel heq]
      exact (mem_kept.1 hj).2
  · intro hreach
    exact (hkept.2 (.inr ⟨i, mem_kept.2 ⟨hi, hreach⟩, rfl⟩)).2

lemma kept_append : (g.append h).kept = List.range g.size ++ h.kept.map (g.size + ·) := by
  rw [kept, size_append, List.range_add, List.filter_append, List.filter_map, kept]
  congr 1
  · rw [List.filter_eq_self]
    intro k hk
    simpa using hg.notMem_unreachable_left h (List.mem_range.1 hk)
  · congr 1
    apply List.filter_congr
    intro i hi
    simp [hg.mem_unreachable_right h (List.mem_range.1 hi)]

lemma renumber_append_left {i : Nat} (hi : i < g.size) :
    (g.append h).renumber (g.append h).unreachable i = i := by
  have hlt : i < (g.append h).size := by
    rw [size_append]
    exact Nat.lt_add_right _ hi
  rw [renumber_eq_countP hlt]
  have hall : ∀ k ∈ List.range i, decide (k ∉ (g.append h).unreachable) = true := by
    intro k hk
    exact decide_eq_true
      (hg.notMem_unreachable_left h (Nat.lt_trans (List.mem_range.1 hk) hi))
  rw [List.countP_eq_length.2 hall, List.length_range]

lemma renumber_append_right (i : Nat) :
    (g.append h).renumber (g.append h).unreachable (g.size + i) =
      g.size + h.renumber h.unreachable i := by
  by_cases hi : i < h.size
  · have hlt : g.size + i < (g.append h).size := by
      rw [size_append]
      exact Nat.add_lt_add_left hi _
    have hall : ∀ k ∈ List.range g.size, decide (k ∉ (g.append h).unreachable) = true := by
      intro k hk
      exact decide_eq_true (hg.notMem_unreachable_left h (List.mem_range.1 hk))
    rw [renumber_eq_countP hlt, renumber_eq_countP hi, List.range_add, List.countP_append,
      List.countP_eq_length.2 hall, List.length_range, List.countP_map]
    congr 1
    apply List.countP_congr
    intro k hk
    simp [hg.mem_unreachable_right h (Nat.lt_trans (List.mem_range.1 hk) hi)]
  · rw [renumber, if_neg (by rw [size_append]; omega), renumber, if_neg hi]

/-- What is kept of two lists that belong to the two graphs. -/
lemma keptOf_append {xs ys : List α} (hxs : xs.length = g.size) :
    (g.append h).keptOf (xs ++ ys) = xs ++ h.keptOf ys := by
  have hleft : (List.range g.size).filterMap (fun i => (xs ++ ys)[i]?) = xs := by
    have hself := filter_zipIdx (fun _ => true) xs
    simp only [List.filter_true, List.zipIdx_map_fst, hxs] at hself
    conv_rhs => rw [hself]
    apply List.filterMap_congr
    intro i hi
    rw [List.getElem?_append_left (hxs ▸ List.mem_range.1 hi)]
  rw [keptOf, hg.kept_append h, List.filterMap_append, hleft, List.filterMap_map, keptOf]
  congr 1
  apply List.filterMap_congr
  intro i hi
  simp only [Function.comp_apply]
  rw [List.getElem?_append_right (by omega), hxs, Nat.add_sub_cancel_left]

/-- Pruning two graphs is pruning the second one alone. -/
theorem prune_append : (g.append h).prune = g.append h.prune := by
  have hself {f : Function} (hf : f ∈ g.functions) :
      f.root.rename { function := (g.append h).renumber (g.append h).unreachable } = f.root := by
    refine (Term.rename_congr f.root ?_).trans f.root.rename_id
    intro i hi
    apply hg.renumber_append_left h
    exact hg.inRange i (List.mem_append_right _ (List.mem_flatMap.2 ⟨f, hf, hi⟩))
  have hfunctions : (g.append h).prune.functions = (g.append h.prune).functions := by
    rw [functions_prune, functions_append, functions_append, hg.keptOf_append h rfl,
      List.map_append, keptOf_map, functions_prune, List.map_map, List.map_map]
    congr 1
    · conv_rhs => rw [← List.map_id g.functions]
      apply List.map_congr_left
      intro f hf
      rw [hself hf]
      rfl
    · apply List.map_congr_left
      intro f hf
      simp only [Function.comp_apply, shifted, Term.rename_rename, hg.renumber_append_right h]
  have hentries : (g.append h).prune.entryPoints = (g.append h.prune).entryPoints := by
    rw [entryPoints_prune, entryPoints_append, entryPoints_append, List.map_append,
      entryPoints_prune, List.map_map, List.map_map]
    congr 1
    · conv_rhs => rw [← List.map_id g.entryPoints]
      apply List.map_congr_left
      intro i hi
      exact hg.renumber_append_left h (hg.inRange i (List.mem_append_left _ hi))
    · apply List.map_congr_left
      intro i hi
      exact hg.renumber_append_right h i
  exact congrArg₂ Graph.mk hfunctions hentries

end Pruned

end Graph

end ScriptGraph
