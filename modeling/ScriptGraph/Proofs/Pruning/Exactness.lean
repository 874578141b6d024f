import ScriptGraph.Proofs.Isolation.Graphs

/-!
# What pruning leaves

Pruning leaves the functions that the entry points lead to, in their order, and gives every
reference to one of them its new index. It asks nothing of the graph: references may go in circles
or denote no function, and entry points may be repeated. The visit that finds the functions ends
after one round for each entry point and one for each reference of a function that is left. A graph
that has been pruned has nothing left to prune.
-/

namespace ScriptGraph.Graph

/-! ### Rounds of a visit -/

/-- Whether a visit of the functions in `work` takes a number of rounds and leaves some functions
unvisited. -/
inductive Visits (g : Graph) :
    (left work : List Nat) → (rounds : Nat) → (unvisited : List Nat) → Prop
  | done {left : List Nat} : Visits g left [] 0 left
  | visit {left work rest : List Nat} {i n : Nat} (hi : i ∈ left)
      (h : Visits g (left.erase i) (g.callees i ++ work) n rest) :
      Visits g left (i :: work) (n + 1) rest
  | skip {left work rest : List Nat} {i n : Nat} (hi : i ∉ left) (h : Visits g left work n rest) :
      Visits g left (i :: work) (n + 1) rest

/-- A visit ends. It has a round for each function that it was to visit and for each reference of a
function that it visits. -/
lemma visits_unvisited (g : Graph) (left work : List Nat) :
    ∃ n, g.Visits left work n (g.unvisited left work) ∧
      n + ((g.unvisited left work).flatMap g.callees).length =
        work.length + (left.flatMap g.callees).length := by
  fun_induction unvisited g left work with
  | case1 left => exact ⟨0, .done, rfl⟩
  | case2 left i work hi ih =>
    obtain ⟨n, hvisits, hn⟩ := ih
    have hperm := ((List.perm_cons_erase hi).flatMap_right g.callees).length_eq
    refine ⟨n + 1, .visit hi hvisits, ?_⟩
    simp only [List.flatMap_cons, List.length_append, List.length_cons] at hperm hn ⊢
    omega
  | case3 left i work hi ih =>
    obtain ⟨n, hvisits, hn⟩ := ih
    refine ⟨n + 1, .skip hi hvisits, ?_⟩
    rw [List.length_cons]
    omega

/-- A function is kept or unreachable. -/
lemma kept_append_unreachable_perm (g : Graph) :
    (g.kept ++ g.unreachable).Perm (List.range g.size) := by
  have hsub := g.unvisited_sublist (List.range g.size) g.entryPoints
  have hnodup : g.unreachable.Nodup := hsub.nodup List.nodup_range
  have hdisjoint : g.kept.Disjoint g.unreachable := by
    intro i hi hi'
    exact (mem_kept.1 hi).2 hi'
  have hkept : g.kept.Nodup := List.nodup_range.filter _
  rw [List.perm_ext_iff_of_nodup (hkept.append hnodup hdisjoint) List.nodup_range]
  intro i
  rw [List.mem_append, mem_kept, List.mem_range]
  constructor
  · rintro (hi | hi)
    · exact hi.1
    · exact List.mem_range.1 (hsub.subset hi)
  · intro hi
    by_cases hmem : i ∈ g.unreachable
    · exact .inr hmem
    · exact .inl ⟨hi, hmem⟩

/-- The visit that finds what is not reachable has a round for each entry point and for each
reference of a function that is kept. -/
lemma visits_unreachable (g : Graph) :
    g.Visits (List.range g.size) g.entryPoints
      (g.entryPoints.length + (g.kept.flatMap g.callees).length) g.unreachable := by
  obtain ⟨n, hvisits, hn⟩ := g.visits_unvisited (List.range g.size) g.entryPoints
  have hperm := (g.kept_append_unreachable_perm.flatMap_right g.callees).length_eq
  rw [List.flatMap_append, List.length_append] at hperm
  rw [← unreachable] at hvisits hn
  have hrounds : n = g.entryPoints.length + (g.kept.flatMap g.callees).length := by omega
  rwa [← hrounds]

/-! ### New indices -/

/-- Whether an index denotes a function that an entry point leads to. -/
def Reached (g : Graph) (i : Nat) : Prop := i < g.size ∧ ∃ e ∈ g.entryPoints, g.Leads e i

/-- Where references go when functions have new indices: what denotes no function stays. -/
def redirect (g : Graph) (ρ : Nat → Nat) (i : Nat) : Nat := if i < g.size then ρ i else i

/-- What it is for a graph to be what pruning leaves of another one, with the new indices of the
functions that are left. -/
structure PrunesTo (g g' : Graph) (ρ : Nat → Nat) : Prop where
  /-- New indices keep the order. -/
  increasing : ∀ i j, g.Reached i → g.Reached j → i < j → ρ i < ρ j
  /-- New indices are those of the functions that are reached, and they leave no gap. -/
  onto : ∀ k, k < g'.size ↔ ∃ i, g.Reached i ∧ ρ i = k
  /-- A function that is left changes in its references only. -/
  functions : ∀ (i : Nat) (f : Function), g.Reached i → g.functions[i]? = some f →
    g'.functions[ρ i]? = some { f with root := f.root.rename { function := g.redirect ρ } }
  entryPoints : g'.entryPoints = g.entryPoints.map (g.redirect ρ)
  /-- An entry point is the function that it was, in its old place among the entry points. -/
  entries : ∀ (k i : Nat) (f : Function), g.entryPoints[k]? = some i → g.functions[i]? = some f →
    g'.entryPoints[k]? = some (ρ i) ∧
      g'.functions[ρ i]? = some { f with root := f.root.rename { function := g.redirect ρ } }
  /-- References and entry points denote a function if they did before. -/
  inRange : ∀ i, (i ∈ g.entryPoints ∨ ∃ j, g.Reached j ∧ i ∈ g.callees j) →
    (g.redirect ρ i < g'.size ↔ i < g.size)

lemma size_prune_le (g : Graph) : g.prune.size ≤ g.size := by
  have hlen := (List.filter_sublist (p := fun i => decide (i ∉ g.unreachable))
    (l := List.range g.size)).length_le
  rwa [List.length_range, ← kept, ← size_prune] at hlen

/-- What pruning does to an index, it does to those of functions only. -/
lemma redirect_renumber (g : Graph) :
    g.redirect (g.renumber g.unreachable) = g.renumber g.unreachable := by
  funext i
  rw [redirect]
  split
  · rfl
  · next hi => rw [renumber, if_neg hi]

lemma prunesTo_prune (g : Graph) : g.PrunesTo g.prune (g.renumber g.unreachable) := by
  have hkept {i : Nat} : g.Reached i ↔ i ∈ g.kept := mem_kept_iff_leads.symm
  have hfunctions (i : Nat) (f : Function) (hi : i ∈ g.kept) (hf : g.functions[i]? = some f) :
      g.prune.functions[g.renumber g.unreachable i]? =
        some { f with root := f.root.rename { function := g.renumber g.unreachable } } := by
    rw [functions_prune, List.getElem?_map, getElem?_keptOf rfl hi, hf]
    rfl
  have hentry {k i : Nat} (hk : g.entryPoints[k]? = some i) (hi : i < g.size) : i ∈ g.kept :=
    mem_kept_of_entry hi (List.mem_of_getElem? hk)
  refine ⟨?_, ?_, ?_, ?_, ?_, ?_⟩
  · intro i j hi hj hij
    exact renumber_lt_renumber (hkept.1 hi) (hkept.1 hj) hij
  · intro k
    simp only [hkept]
    exact exists_renumber_eq
  · intro i f hi hf
    rw [redirect_renumber]
    exact hfunctions i f (hkept.1 hi) hf
  · rw [redirect_renumber]
    rfl
  · intro k i f hk hf
    have hi : i < g.size := (List.getElem?_eq_some_iff.1 hf).1
    rw [redirect_renumber, entryPoints_prune, List.getElem?_map, hk]
    exact ⟨rfl, hfunctions i f (hentry hk hi) hf⟩
  · intro i hi
    rw [redirect_renumber]
    by_cases hlt : i < g.size
    · have hmem : i ∈ g.kept := by
        rcases hi with hi | ⟨j, hj, hi⟩
        · exact mem_kept_of_entry hlt hi
        · exact mem_kept_of_callee (hkept.1 hj) hi hlt
      simp only [hlt, iff_true]
      exact exists_renumber_eq.2 ⟨i, hmem, rfl⟩
    · have hle := g.size_prune_le
      rw [renumber, if_neg hlt]
      omega

/-! ### Pruning twice -/

/-- References lead on among the new indices as they did among the old ones. -/
lemma leads_prune {g : Graph} {e i : Nat} (he : e ∈ g.kept) (hlead : g.Leads e i)
    (hi : i < g.size) :
    g.prune.Leads (g.renumber g.unreachable e) (g.renumber g.unreachable i) := by
  have hkept : ∀ {j}, g.Leads e j → j < g.size → j ∈ g.kept := by
    intro j hlead hj
    obtain ⟨-, e', he', hlead'⟩ := mem_kept_iff_leads.1 he
    exact mem_kept_iff_leads.2 ⟨hj, e', he', hlead'.trans hlead⟩
  induction hlead with
  | refl => exact .refl
  | tail hlead hstep ih =>
    have hlt := lt_size_of_mem_callees hstep
    refine (ih hlt).tail ?_
    rw [callees_prune (hkept hlead hlt)]
    exact List.mem_map_of_mem hstep

lemma mem_kept_prune {g : Graph} {k : Nat} (hk : k < g.prune.size) : k ∈ g.prune.kept := by
  obtain ⟨i, hi, rfl⟩ := exists_renumber_eq.1 hk
  obtain ⟨hlt, e, he, hlead⟩ := mem_kept_iff_leads.1 hi
  -- An entry point that leads to a function is itself one, or is that function.
  have hsize : e < g.size := by
    rcases hlead.cases_head with rfl | ⟨j, hj, -⟩
    · exact hlt
    · exact lt_size_of_mem_callees hj
  refine mem_kept_iff_leads.2 ⟨hk, _, ?_, leads_prune (mem_kept_of_entry hsize he) hlead hlt⟩
  rw [entryPoints_prune]
  exact List.mem_map_of_mem he

/-- Pruning changes nothing where all functions are kept. -/
lemma prune_eq_self {g : Graph} (h : ∀ i < g.size, i ∈ g.kept) : g.prune = g := by
  have hnil : g.unreachable = [] := by
    rw [List.eq_nil_iff_forall_not_mem]
    intro i hi
    have hmem := (g.unvisited_sublist (List.range g.size) g.entryPoints).subset hi
    exact (mem_kept.1 (h i (List.mem_range.1 hmem))).2 hi
  have hid : g.renumber [] = id := by
    funext i
    simp [renumber]
  have hroot (f : Function) : f.root.rename { function := id } = f.root := f.root.rename_id
  obtain ⟨functions, entryPoints⟩ := g
  simp only [prune, hnil, hid, rename, hroot, List.map_id_fun, List.not_mem_nil, not_false_eq_true,
    decide_true, List.filter_true, List.zipIdx_map_fst, id]
  exact congrArg (Graph.mk · entryPoints) (List.map_id functions)

/-- Pruning leaves exactly what the entry points lead to, after a visit that ends, and a second time
it changes nothing. -/
theorem prune_exact (g : Graph) :
    g.Visits (List.range g.size) g.entryPoints
        (g.entryPoints.length + (g.kept.flatMap g.callees).length) g.unreachable ∧
      (∃ ρ, g.PrunesTo g.prune ρ) ∧ g.prune.prune = g.prune := by
  refine ⟨g.visits_unreachable, ⟨_, g.prunesTo_prune⟩, ?_⟩
  apply prune_eq_self
  intro k hk
  exact mem_kept_prune hk

end ScriptGraph.Graph
