import Mathlib.Data.List.Forall2
import Mathlib.Data.List.Nodup
import Mathlib.Data.List.Range
import Mathlib.Data.List.Sort
import ScriptGraph.Graph.Reachable
import ScriptGraph.Proofs.References

/-!
# Pruning

The functions that pruning keeps are closed under references, and every one of them is an entry
point or referred to by one that is kept. A kept function is found under its new index, so pruning a
graph is listing the kept functions with their references renumbered. It makes no difference whether
slots and locations are renamed before or after.
-/

namespace ScriptGraph.Graph

/-! ### What a visit leaves -/

lemma unvisited_sublist (g : Graph) (left work : List Nat) :
    (g.unvisited left work).Sublist left := by
  fun_induction unvisited g left work with
  | case1 => exact .refl _
  | case2 left i work _ ih => exact ih.trans List.erase_sublist
  | case3 left i work _ ih => exact ih

/-- What is to be visited is not left. -/
lemma notMem_unvisited_of_mem (g : Graph) {left work : List Nat} (hleft : left.Nodup) {i : Nat}
    (hi : i ∈ work) : i ∉ g.unvisited left work := by
  fun_induction unvisited g left work with
  | case1 => cases hi
  | case2 left k work hk ih =>
    rcases List.mem_cons.1 hi with rfl | hi
    · intro hmem
      have := (g.unvisited_sublist _ _).subset hmem
      exact (hleft.mem_erase_iff.1 this).1 rfl
    · exact ih (hleft.erase k) (List.mem_append_right _ hi)
  | case3 left k work hk ih =>
    rcases List.mem_cons.1 hi with rfl | hi
    · intro hmem
      exact hk ((g.unvisited_sublist _ _).subset hmem)
    · exact ih hleft hi

/-- What a visited function refers to is not left. -/
lemma notMem_unvisited_of_callee (g : Graph) {left work : List Nat} (hleft : left.Nodup) {i j : Nat}
    (hi : i ∈ left) (hvisited : i ∉ g.unvisited left work) (hj : j ∈ g.callees i) :
    j ∉ g.unvisited left work := by
  fun_induction unvisited g left work with
  | case1 => exact absurd hi hvisited
  | case2 left k work hk ih =>
    by_cases hik : i = k
    · subst hik
      exact notMem_unvisited_of_mem g (hleft.erase i) (List.mem_append_left _ hj)
    · exact ih (hleft.erase k) (hleft.mem_erase_iff.2 ⟨hik, hi⟩) hvisited
  | case3 left k work hk ih => exact ih hleft hi hvisited

/-- A visited function was to be visited or is referred to by another one. -/
lemma mem_or_callee_of_visited (g : Graph) {left work : List Nat} (hleft : left.Nodup) {i : Nat}
    (hi : i ∈ left) (hvisited : i ∉ g.unvisited left work) :
    i ∈ work ∨ ∃ j ∈ left, j ∉ g.unvisited left work ∧ i ∈ g.callees j := by
  fun_induction unvisited g left work with
  | case1 => exact absurd hi hvisited
  | case2 left k work hk ih =>
    by_cases hik : i = k
    · exact .inl (hik ▸ List.mem_cons_self)
    · rcases ih (hleft.erase k) (hleft.mem_erase_iff.2 ⟨hik, hi⟩) hvisited with hmem | hcallee
      · rcases List.mem_append.1 hmem with hmem | hmem
        · refine .inr ⟨k, hk, ?_, hmem⟩
          intro hleft'
          have := (g.unvisited_sublist _ _).subset hleft'
          exact (hleft.mem_erase_iff.1 this).1 rfl
        · exact .inl (List.mem_cons_of_mem _ hmem)
      · obtain ⟨j, hj, hj', hcallee⟩ := hcallee
        exact .inr ⟨j, List.mem_of_mem_erase hj, hj', hcallee⟩
  | case3 left k work hk ih =>
    rcases ih hleft hi hvisited with hmem | hcallee
    · exact .inl (List.mem_cons_of_mem _ hmem)
    · exact .inr hcallee

/-! ### Kept functions -/

/-- The indices of the functions that pruning keeps, in order. -/
def kept (g : Graph) : List Nat := (List.range g.size).filter fun i => i ∉ g.unreachable

lemma mem_kept {g : Graph} {i : Nat} : i ∈ g.kept ↔ i < g.size ∧ i ∉ g.unreachable := by
  simp [kept]

lemma mem_kept_of_entry {g : Graph} {i : Nat} (hi : i < g.size) (h : i ∈ g.entryPoints) :
    i ∈ g.kept :=
  mem_kept.2 ⟨hi, notMem_unvisited_of_mem g List.nodup_range h⟩

lemma mem_kept_of_callee {g : Graph} {i j : Nat} (hi : i ∈ g.kept) (hj : j ∈ g.callees i)
    (hlt : j < g.size) : j ∈ g.kept := by
  obtain ⟨hi, hreach⟩ := mem_kept.1 hi
  exact mem_kept.2
    ⟨hlt, notMem_unvisited_of_callee g List.nodup_range (List.mem_range.2 hi) hreach hj⟩

lemma entry_or_callee_of_mem_kept {g : Graph} {i : Nat} (hi : i ∈ g.kept) :
    i ∈ g.entryPoints ∨ ∃ j ∈ g.kept, i ∈ g.callees j := by
  obtain ⟨hi, hreach⟩ := mem_kept.1 hi
  rcases mem_or_callee_of_visited g List.nodup_range (List.mem_range.2 hi) hreach with h | h
  · exact .inl h
  · obtain ⟨j, hj, hj', hcallee⟩ := h
    exact .inr ⟨j, mem_kept.2 ⟨List.mem_range.1 hj, hj'⟩, hcallee⟩

/-! ### New indices -/

/-- The place of a number among those that a filter keeps is the number of kept ones before it. -/
lemma getElem?_filter_range {p : Nat → Bool} {i n : Nat} (hi : i < n) (hp : p i = true) :
    ((List.range n).filter p)[(List.range i).countP p]? = some i := by
  obtain ⟨k, rfl⟩ : ∃ k, n = i + (k + 1) := ⟨n - i - 1, by omega⟩
  rw [List.range_add, List.filter_append, List.countP_eq_length_filter,
    List.getElem?_append_right le_rfl, Nat.sub_self, List.range_succ_eq_map]
  simp [hp]

/-- The functions that are dropped before an index are those before it that are dropped. -/
lemma countP_unreachable (g : Graph) (i : Nat) :
    g.unreachable.countP (· < i) = (List.range i).countP (· ∈ g.unreachable) := by
  have hsub := g.unvisited_sublist (List.range g.size) g.entryPoints
  have hnodup : g.unreachable.Nodup := hsub.nodup List.nodup_range
  rw [List.countP_eq_length_filter, List.countP_eq_length_filter]
  apply List.Perm.length_eq
  rw [List.perm_ext_iff_of_nodup (hnodup.filter _) (List.nodup_range.filter _)]
  intro k
  simp only [List.mem_filter, List.mem_range, decide_eq_true_eq]
  exact and_comm

lemma renumber_eq_countP {g : Graph} {i : Nat} (hi : i < g.size) :
    g.renumber g.unreachable i = (List.range i).countP fun k => k ∉ g.unreachable := by
  have hsplit := List.length_eq_countP_add_countP (· ∈ g.unreachable) (l := List.range i)
  rw [List.length_range] at hsplit
  rw [renumber, if_pos hi, countP_unreachable g i]
  simp only [decide_not, decide_eq_true_eq] at hsplit ⊢
  omega

/-- A kept function has its new index among the kept functions. -/
lemma getElem?_kept_renumber {g : Graph} {i : Nat} (hi : i ∈ g.kept) :
    g.kept[g.renumber g.unreachable i]? = some i := by
  obtain ⟨hlt, hreach⟩ := mem_kept.1 hi
  rw [renumber_eq_countP hlt, kept]
  exact getElem?_filter_range hlt (by simpa using hreach)

lemma kept_pairwise (g : Graph) : g.kept.Pairwise (· < ·) :=
  List.pairwise_lt_range.filter _

/-- New indices keep the order of the kept functions. -/
lemma renumber_lt_renumber {g : Graph} {i j : Nat} (hi : i ∈ g.kept) (hj : j ∈ g.kept)
    (h : i < j) : g.renumber g.unreachable i < g.renumber g.unreachable j := by
  obtain ⟨hlti, hgeti⟩ := List.getElem?_eq_some_iff.1 (getElem?_kept_renumber hi)
  obtain ⟨hltj, hgetj⟩ := List.getElem?_eq_some_iff.1 (getElem?_kept_renumber hj)
  by_contra hle
  rcases Nat.eq_or_lt_of_le (Nat.le_of_not_lt hle) with heq | hlt
  · simp only [heq, hgeti] at hgetj
    omega
  · have := List.pairwise_iff_getElem.1 g.kept_pairwise _ _ hltj hlti hlt
    omega

lemma renumber_inj {g : Graph} {i j : Nat} (hi : i ∈ g.kept) (hj : j ∈ g.kept)
    (h : g.renumber g.unreachable i = g.renumber g.unreachable j) : i = j := by
  have hget := getElem?_kept_renumber hi
  rw [h, getElem?_kept_renumber hj] at hget
  exact (Option.some.inj hget).symm

lemma filter_zipIdx (p : Nat → Bool) (xs : List α) :
    (xs.zipIdx.filter fun x => p x.2).map Prod.fst =
      ((List.range xs.length).filter p).filterMap fun i => xs[i]? := by
  induction xs using List.reverseRecOn with
  | nil => rfl
  | append_singleton xs x ih =>
    have hcongr : ((List.range xs.length).filter p).filterMap (fun i => (xs ++ [x])[i]?) =
        ((List.range xs.length).filter p).filterMap fun i => xs[i]? := by
      apply List.filterMap_congr
      intro i hi
      have hlt : i < xs.length := List.mem_range.1 (List.mem_filter.1 hi).1
      rw [List.getElem?_append_left hlt]
    rw [List.length_append, List.length_singleton, List.range_succ, List.filter_append,
      List.filterMap_append, hcongr, ← ih, List.zipIdx_append, List.filter_append, List.map_append]
    cases hp : p xs.length <;> simp [hp]

/-- The entries of a list that belong to the kept functions. -/
def keptOf (g : Graph) (xs : List α) : List α := g.kept.filterMap fun i => xs[i]?

lemma keptOf_sublist {g : Graph} {xs : List α} (hlen : xs.length = g.size) :
    (g.keptOf xs).Sublist xs := by
  rw [keptOf, kept, ← hlen, ← filter_zipIdx]
  have h := (List.filter_sublist (p := fun x => decide (x.2 ∉ g.unreachable)) (l := xs.zipIdx)).map
    Prod.fst
  rwa [List.zipIdx_map_fst] at h

lemma getElem?_filterMap {f : Nat → Option α} {is : List Nat} (h : ∀ i ∈ is, (f i).isSome)
    (k : Nat) : (is.filterMap f)[k]? = is[k]?.bind f := by
  induction is generalizing k with
  | nil => rfl
  | cons i is ih =>
    obtain ⟨x, hx⟩ := Option.isSome_iff_exists.1 (h i List.mem_cons_self)
    rw [List.filterMap_cons_some hx]
    cases k with
    | zero => simp [hx]
    | succ k => simpa using ih (fun j hj => h j (List.mem_cons_of_mem i hj)) k

/-- A kept entry is found under its new index. -/
lemma getElem?_keptOf {g : Graph} {xs : List α} (hlen : xs.length = g.size) {i : Nat}
    (hi : i ∈ g.kept) : (g.keptOf xs)[g.renumber g.unreachable i]? = xs[i]? := by
  have hsome : ∀ k ∈ g.kept, (xs[k]?).isSome := by
    intro k hk
    have hlt : k < xs.length := hlen ▸ (mem_kept.1 hk).1
    simp [hlt]
  rw [keptOf, getElem?_filterMap hsome, getElem?_kept_renumber hi]
  rfl

lemma forall₂_keptOf {g : Graph} {R : α → β → Prop} {xs : List α} {ys : List β}
    (h : ∀ i ∈ g.kept, ∃ x y, xs[i]? = some x ∧ ys[i]? = some y ∧ R x y) :
    List.Forall₂ R (g.keptOf xs) (g.keptOf ys) := by
  rw [keptOf, keptOf]
  generalize g.kept = is at h
  induction is with
  | nil => exact .nil
  | cons i is ih =>
    obtain ⟨x, y, hx, hy, hR⟩ := h i List.mem_cons_self
    rw [List.filterMap_cons_some hx, List.filterMap_cons_some hy]
    exact .cons hR (ih fun j hj => h j (List.mem_cons_of_mem i hj))

/-- If the last function is kept, its entry stays the last. -/
lemma getLast?_keptOf {g : Graph} {xs : List α} (hlen : xs.length = g.size)
    (h : g.size - 1 ∈ g.kept) : (g.keptOf xs).getLast? = xs.getLast? := by
  obtain ⟨hlt, hreach⟩ := mem_kept.1 h
  obtain ⟨n, hn⟩ : ∃ n, g.size = n + 1 := ⟨g.size - 1, by omega⟩
  rw [hn, Nat.add_sub_cancel] at hreach
  have hget : xs[n]? = some (xs[n]) := List.getElem?_eq_getElem (by omega)
  have hlast : xs.getLast? = xs[n]? := by
    rw [List.getLast?_eq_getElem?, hlen, hn, Nat.add_sub_cancel]
  rw [hlast, keptOf, kept, hn, List.range_succ, List.filter_append, List.filterMap_append]
  simp [hreach, hget]

/-- Pruning lists the kept functions with their references renumbered. -/
lemma functions_prune (g : Graph) :
    g.prune.functions = (g.keptOf g.functions).map fun f =>
      { f with root := f.root.rename { function := g.renumber g.unreachable } } := by
  rw [prune, rename, keptOf, kept, size, ← filter_zipIdx]

@[simp] lemma entryPoints_prune (g : Graph) :
    g.prune.entryPoints = g.entryPoints.map (g.renumber g.unreachable) := rfl

lemma size_prune (g : Graph) : g.prune.size = g.kept.length := by
  have hsome : ∀ i ∈ g.kept, (g.functions[i]?).isSome := by
    intro i hi
    have hlt : i < g.functions.length := (mem_kept.1 hi).1
    simp [hlt]
  rw [size, functions_prune, List.length_map, keptOf, List.length_filterMap_eq_countP,
    List.countP_eq_length]
  exact hsome

/-- The new indices are those of the pruned graph. -/
lemma exists_renumber_eq {g : Graph} {k : Nat} :
    k < g.prune.size ↔ ∃ i ∈ g.kept, g.renumber g.unreachable i = k := by
  rw [size_prune]
  constructor
  · intro hk
    have hmem : g.kept[k] ∈ g.kept := List.getElem_mem hk
    obtain ⟨hlt, hget⟩ := List.getElem?_eq_some_iff.1 (getElem?_kept_renumber hmem)
    have hnodup : g.kept.Nodup := List.nodup_range.filter _
    exact ⟨_, hmem, (List.Nodup.getElem_inj_iff hnodup).1 hget⟩
  · rintro ⟨i, hi, rfl⟩
    exact (List.getElem?_eq_some_iff.1 (getElem?_kept_renumber hi)).1

/-- A kept function refers to what it did before, under the new indices. -/
lemma callees_prune {g : Graph} {i : Nat} (hi : i ∈ g.kept) :
    g.prune.callees (g.renumber g.unreachable i) =
      (g.callees i).map (g.renumber g.unreachable) := by
  rw [callees, functions_prune, List.getElem?_map, getElem?_keptOf rfl hi, callees]
  cases g.functions[i]? with
  | none => rfl
  | some f => exact Term.callees_rename _ _

lemma mem_references {g : Graph} {j : Nat} :
    j ∈ references g.functions ↔ ∃ i < g.size, j ∈ g.callees i := by
  rw [references, List.mem_flatMap]
  constructor
  · rintro ⟨f, hf, hj⟩
    obtain ⟨i, hi, rfl⟩ := List.mem_iff_getElem.1 hf
    exact ⟨i, hi, by rwa [callees, List.getElem?_eq_getElem hi]⟩
  · rintro ⟨i, hi, hj⟩
    rw [callees, List.getElem?_eq_getElem hi] at hj
    exact ⟨_, List.getElem_mem hi, hj⟩

lemma mem_references_keptOf {g : Graph} {j : Nat} :
    j ∈ references (g.keptOf g.functions) ↔ ∃ i ∈ g.kept, j ∈ g.callees i := by
  simp only [references, keptOf, List.mem_flatMap, List.mem_filterMap]
  constructor
  · rintro ⟨f, ⟨i, hi, hf⟩, hj⟩
    exact ⟨i, hi, by rwa [callees, hf]⟩
  · rintro ⟨i, hi, hj⟩
    have hlt : i < g.functions.length := (mem_kept.1 hi).1
    have hf : g.functions[i]? = some g.functions[i] := List.getElem?_eq_getElem hlt
    rw [callees, hf] at hj
    exact ⟨_, ⟨i, hi, hf⟩, hj⟩

lemma references_prune (g : Graph) :
    references g.prune.functions =
      (references (g.keptOf g.functions)).map (g.renumber g.unreachable) := by
  simp only [functions_prune, references, List.flatMap_map, List.map_flatMap, Term.callees_rename]

/-! ### Renaming -/

lemma keptOf_map (g : Graph) (f : α → β) (xs : List α) :
    g.keptOf (xs.map f) = (g.keptOf xs).map f := by
  simp only [keptOf, List.getElem?_map, List.map_filterMap]

@[simp] lemma size_rename (g : Graph) (r : Term.Renaming) : (g.rename r).size = g.size := by
  simp [rename, size]

lemma callees_rename (g : Graph) (r : Term.Renaming) (i : Nat) :
    (g.rename r).callees i = (g.callees i).map r.function := by
  rw [callees, callees, rename, List.getElem?_map]
  cases g.functions[i]? with
  | none => rfl
  | some f => exact Term.callees_rename r f.root

lemma unvisited_congr {g h : Graph} (hcallees : ∀ i, g.callees i = h.callees i)
    (left work : List Nat) : g.unvisited left work = h.unvisited left work := by
  fun_induction unvisited g left work with
  | case1 left => rw [unvisited]
  | case2 left i work hi ih => rw [unvisited, if_pos hi, ih, hcallees]
  | case3 left i work hi ih => rw [unvisited, if_neg hi, ih]

section

variable (g : Graph) {r : Term.Renaming} (hr : r.function = id)
include hr

lemma entryPoints_rename : (g.rename r).entryPoints = g.entryPoints := by
  rw [rename, hr, List.map_id]

lemma unreachable_rename : (g.rename r).unreachable = g.unreachable := by
  rw [unreachable, unreachable, size_rename, entryPoints_rename g hr]
  exact unvisited_congr (fun i => by rw [callees_rename, hr, List.map_id]) _ _

/-- Pruning looks at nothing in a term but its references, so slots and locations may be renamed
before or after it. -/
theorem prune_rename : (g.rename r).prune = g.prune.rename r := by
  have hrenumber : (g.rename r).renumber = g.renumber := by
    funext dropped i
    rw [renumber, renumber, size_rename]
  have hkeptOf {α : Type} (xs : List α) : (g.rename r).keptOf xs = g.keptOf xs := by
    simp only [keptOf, kept, size_rename, unreachable_rename g hr]
  have hfunctions : (g.rename r).prune.functions = (g.prune.rename r).functions := by
    rw [functions_prune, hkeptOf, hrenumber, unreachable_rename g hr]
    simp only [rename, keptOf_map, List.map_map, Function.comp_def, Term.rename_then,
      functions_prune, Term.Renaming.then, hr, id]
  have hentries : (g.rename r).prune.entryPoints = (g.prune.rename r).entryPoints := by
    rw [entryPoints_rename _ hr, entryPoints_prune, entryPoints_prune, entryPoints_rename g hr,
      hrenumber, unreachable_rename g hr]
  exact congr (congrArg Graph.mk hfunctions) hentries

end

/-- Slots may be shifted before or after a graph is pruned. -/
theorem prune_shift (g : Graph) (n : Nat) : (g.shift n).prune = g.prune.shift n :=
  prune_rename g rfl

end ScriptGraph.Graph
