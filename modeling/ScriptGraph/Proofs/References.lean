import Mathlib.Data.List.Basic
import Mathlib.Tactic.Lemma
import ScriptGraph.Graph.Basic

/-!
# References of terms

The functions and the slots that a term refers to, in order, as they follow from its parts.
-/

namespace ScriptGraph.Term

variable {l : Option Location}

@[simp] lemma callees_value (v : Literal) : (value v l).callees = [] := rfl

@[simp] lemma callees_getLocal (i : Nat) : (getLocal i l).callees = [] := rfl

@[simp] lemma callees_getGlobal (n : String) : (getGlobal n l).callees = [] := rfl

@[simp] lemma callees_getFunction (i : Nat) : (getFunction i l).callees = [i] := rfl

@[simp] lemma callees_setLocal (i : Nat) (v : Term) : (setLocal i v l).callees = v.callees := rfl

@[simp] lemma callees_setGlobal (n : String) (v : Term) :
    (setGlobal n v l).callees = v.callees := rfl

@[simp] lemma callees_block (ts : List Term) : (block ts l).callees = ts.flatMap callees := by
  simp only [callees, subterms, subtermsAll_eq_flatMap, List.filterMap_cons_none,
    List.filterMap_flatMap]
  rfl

mutual

/-- Renaming a term renames what it refers to. -/
theorem callees_rename (r : Renaming) (t : Term) :
    (t.rename r).callees = t.callees.map r.function := by
  match t with
  | value v l | getLocal i l | getGlobal n l | getFunction i l => rfl
  | setLocal i v l | setGlobal n v l =>
    exact callees_rename r v
  | block ts l =>
    simp only [rename, renameAll_eq_map, callees_block]
    exact callees_renameAll r ts

theorem callees_renameAll (r : Renaming) (ts : List Term) :
    (ts.map (rename r)).flatMap callees = (ts.flatMap callees).map r.function := by
  match ts with
  | [] => rfl
  | t :: ts =>
    simp only [List.map_cons, List.flatMap_cons, List.map_append]
    rw [callees_rename r t, callees_renameAll r ts]

end

mutual

/-- Renamings that agree on what a term refers to rename it alike. -/
theorem rename_congr {ρ σ : Nat → Nat} (t : Term) (h : ∀ i ∈ t.callees, ρ i = σ i) :
    t.rename { function := ρ } = t.rename { function := σ } := by
  match t with
  | value v l | getLocal i l | getGlobal n l => rfl
  | getFunction i l => simp only [rename, h i List.mem_cons_self]
  | setLocal i v l | setGlobal n v l => simp only [rename, rename_congr v h]
  | block ts l =>
    rw [callees_block] at h
    simp only [rename, renameAll_eq_map, renameAll_congr ts h]

theorem renameAll_congr {ρ σ : Nat → Nat} (ts : List Term)
    (h : ∀ i ∈ ts.flatMap callees, ρ i = σ i) :
    ts.map (rename { function := ρ }) = ts.map (rename { function := σ }) := by
  match ts with
  | [] => rfl
  | t :: ts =>
    simp only [List.flatMap_cons, List.mem_append] at h
    rw [List.map_cons, List.map_cons, rename_congr t fun i hi => h i (.inl hi),
      renameAll_congr ts fun i hi => h i (.inr hi)]

end

/-- One renaming after another. -/
def Renaming.then (r s : Renaming) : Renaming where
  slot := s.slot ∘ r.slot
  function := s.function ∘ r.function
  location := s.location ∘ r.location

mutual

/-- Renaming twice is renaming by both at once. -/
theorem rename_then (r s : Renaming) (t : Term) : (t.rename r).rename s = t.rename (r.then s) := by
  match t with
  | value v l | getLocal i l | getGlobal n l | getFunction i l => rfl
  | setLocal i v l | setGlobal n v l =>
    simp only [rename, rename_then r s v]
    rfl
  | block ts l =>
    simp only [rename, renameAll_eq_map, List.map_map, renameAll_then r s ts]
    rfl

theorem renameAll_then (r s : Renaming) (ts : List Term) :
    ts.map (rename s ∘ rename r) = ts.map (rename (r.then s)) := by
  match ts with
  | [] => rfl
  | t :: ts =>
    rw [List.map_cons, List.map_cons, Function.comp_apply, rename_then r s t,
      renameAll_then r s ts]

end

lemma rename_rename (ρ σ : Nat → Nat) (t : Term) :
    (t.rename { function := ρ }).rename { function := σ } =
      t.rename { function := fun i => σ (ρ i) } :=
  rename_then _ _ t

mutual

/-- A renaming that changes nothing leaves a term as it is. -/
theorem rename_id (t : Term) : t.rename {} = t := by
  match t with
  | value v l | getLocal i l | getGlobal n l | getFunction i l => rfl
  | setLocal i v l | setGlobal n v l => simp only [rename, rename_id v, id]
  | block ts l => simp only [rename, renameAll_eq_map, renameAll_id ts, id]

theorem renameAll_id (ts : List Term) : ts.map (rename {}) = ts := by
  match ts with
  | [] => rfl
  | t :: ts => rw [List.map_cons, rename_id t, renameAll_id ts]

end

/-! ### Slots -/

/-- The slots that a term reads or writes, in order. -/
def slots (t : Term) : List Nat :=
  t.subterms.filterMap fun
    | getLocal i _ | setLocal i _ _ => some i
    | _ => none

@[simp] lemma slots_value (v : Literal) : (value v l).slots = [] := rfl

@[simp] lemma slots_getLocal (i : Nat) : (getLocal i l).slots = [i] := rfl

@[simp] lemma slots_getGlobal (n : String) : (getGlobal n l).slots = [] := rfl

@[simp] lemma slots_getFunction (i : Nat) : (getFunction i l).slots = [] := rfl

@[simp] lemma slots_setLocal (i : Nat) (v : Term) : (setLocal i v l).slots = i :: v.slots := rfl

@[simp] lemma slots_setGlobal (n : String) (v : Term) : (setGlobal n v l).slots = v.slots := rfl

@[simp] lemma slots_block (ts : List Term) : (block ts l).slots = ts.flatMap slots := by
  simp only [slots, subterms, subtermsAll_eq_flatMap, List.filterMap_cons_none,
    List.filterMap_flatMap]
  rfl

mutual

/-- Renaming functions leaves slots as they are. -/
theorem slots_rename (ρ : Nat → Nat) (t : Term) : (t.rename { function := ρ }).slots = t.slots := by
  match t with
  | value v l | getLocal i l | getGlobal n l | getFunction i l => rfl
  | setLocal i v l =>
    simp only [rename, slots_setLocal, slots_rename ρ v, id]
  | setGlobal n v l =>
    exact slots_rename ρ v
  | block ts l =>
    simp only [rename, renameAll_eq_map, slots_block]
    exact slots_renameAll ρ ts

theorem slots_renameAll (ρ : Nat → Nat) (ts : List Term) :
    (ts.map (rename { function := ρ })).flatMap slots = ts.flatMap slots := by
  match ts with
  | [] => rfl
  | t :: ts =>
    simp only [List.map_cons, List.flatMap_cons]
    rw [slots_rename ρ t, slots_renameAll ρ ts]

end

end ScriptGraph.Term

namespace ScriptGraph

/-- The functions that some functions refer to, in order and as often as they do. -/
def references (fs : List Function) : List Nat := fs.flatMap fun f => f.root.callees

@[simp] lemma references_append (fs gs : List Function) :
    references (fs ++ gs) = references fs ++ references gs :=
  List.flatMap_append

end ScriptGraph
