import Mathlib.Logic.ExistsUnique
import Mathlib.Logic.Relation
import ScriptGraph.Proofs.Building
import ScriptGraph.Proofs.Lowering.References
import ScriptGraph.Proofs.Pruning

/-!
# Well-formed graphs

The graph of units that were parsed one after another has one entry point for each unit. Every other
function belongs to one reference, in a later function, so the references form a forest with the
entry points as its roots. A unit adds a tree that has lost some of its branches, and pruning
removes what was cut off.
-/

namespace ScriptGraph

namespace Graph

/-- What holds of a graph with an entry point for each of a number of units, also before what is cut
off has been removed. -/
structure Sound (g : Graph) (units : Nat) : Prop where
  entryCount : g.entryPoints.length = units
  increasing : g.entryPoints.Pairwise (· < ·)
  inRange : ∀ i ∈ g.entryPoints ++ references g.functions, i < g.size
  unreferenced : ∀ i ∈ g.entryPoints, i ∉ references g.functions
  nodup : (references g.functions).Nodup
  descending : ∀ i, ∀ j ∈ g.callees i, j < i
  bounded : ∀ f ∈ g.functions, f.Bounded

/-- What holds of a complete graph: every function but the entry points has its one reference. -/
structure WellFormed (g : Graph) (units : Nat) : Prop extends g.Sound units where
  referenced : ∀ i < g.size, i ∉ g.entryPoints → (references g.functions).count i = 1

lemma wellFormed_nil : ({} : Graph).WellFormed 0 := by
  refine ⟨⟨rfl, .nil, ?_, ?_, .nil, ?_, ?_⟩, ?_⟩ <;> simp [references, callees, size]

/-! ### Forests -/

lemma lt_size_of_mem_callees {g : Graph} {i j : Nat} (h : j ∈ g.callees i) : i < g.size := by
  by_contra hi
  rw [callees, List.getElem?_eq_none (Nat.le_of_not_lt hi)] at h
  cases h

/-- Two functions do not refer to the same one. -/
lemma Sound.callee_inj {g : Graph} {n : Nat} (h : g.Sound n) {i j k : Nat} (hi : k ∈ g.callees i)
    (hj : k ∈ g.callees j) : i = j := by
  have hdisjoint {i j : Nat} (hij : i < j) (hi : k ∈ g.callees i) (hj : k ∈ g.callees j) :
      False := by
    have hlti := lt_size_of_mem_callees hi
    have hltj := lt_size_of_mem_callees hj
    have hpair := (List.nodup_flatMap.1 h.nodup).2
    rw [callees, List.getElem?_eq_getElem hlti] at hi
    rw [callees, List.getElem?_eq_getElem hltj] at hj
    exact List.pairwise_iff_getElem.1 hpair i j hlti hltj hij hi hj
  rcases Nat.lt_trichotomy i j with hij | hij | hij
  · exact (hdisjoint hij hi hj).elim
  · exact hij
  · exact (hdisjoint hij hj hi).elim

/-- Whether references lead from one function to another. -/
def Leads (g : Graph) : Nat → Nat → Prop := Relation.ReflTransGen fun i j => j ∈ g.callees i

/-- Every function is reached from one entry point. -/
theorem WellFormed.existsUnique_entry {g : Graph} {n : Nat} (h : g.WellFormed n) {i : Nat}
    (hi : i < g.size) : ∃! e, e ∈ g.entryPoints ∧ g.Leads e i := by
  -- Along a reference the index grows towards the entry point.
  induction hk : g.size - i using Nat.strongRecOn generalizing i with
  | ind k ih =>
    by_cases hentry : i ∈ g.entryPoints
    · refine ⟨i, ⟨hentry, .refl⟩, ?_⟩
      rintro e ⟨-, hlead⟩
      rcases hlead.cases_tail with rfl | ⟨j, -, hj⟩
      · rfl
      · exact absurd (mem_references.2 ⟨j, lt_size_of_mem_callees hj, hj⟩)
          (h.unreferenced i hentry)
    · have hmem : i ∈ references g.functions := by
        rw [← List.count_pos_iff, h.referenced i hi hentry]
        exact Nat.one_pos
      obtain ⟨j, hj, hij⟩ := mem_references.1 hmem
      have hlt := h.descending j i hij
      obtain ⟨e, ⟨he, hlead⟩, hunique⟩ := ih (g.size - j) (by omega) hj rfl
      refine ⟨e, ⟨he, hlead.tail hij⟩, ?_⟩
      rintro e' ⟨he', hlead'⟩
      rcases hlead'.cases_tail with rfl | ⟨j', hlead', hj'⟩
      · exact absurd he' hentry
      · rw [h.callee_inj hj' hij] at hlead'
        exact hunique e' ⟨he', hlead'⟩

/-! ### Pruning -/

/-- Pruning leaves the functions that have a reference, and each with its own. -/
theorem Sound.prune {g : Graph} {n : Nat} (h : g.Sound n) : g.prune.WellFormed n := by
  have hentry : ∀ i ∈ g.entryPoints, i ∈ g.kept := by
    intro i hi
    exact mem_kept_of_entry (h.inRange i (List.mem_append_left _ hi)) hi
  have hcallee : ∀ i ∈ g.kept, ∀ j ∈ g.callees i, j ∈ g.kept := by
    intro i hi j hj
    apply mem_kept_of_callee hi hj
    exact Nat.lt_trans (h.descending i j hj) (mem_kept.1 hi).1
  have href : ∀ j ∈ references (g.keptOf g.functions), j ∈ g.kept := by
    intro j hj
    obtain ⟨i, hi, hij⟩ := mem_references_keptOf.1 hj
    exact hcallee i hi j hij
  have hsub : (references (g.keptOf g.functions)).Sublist (references g.functions) :=
    (keptOf_sublist rfl).flatMap _
  have hnodup : (references g.prune.functions).Nodup := by
    rw [references_prune]
    apply (hsub.nodup h.nodup).map_on
    intro i hi j hj
    exact renumber_inj (href i hi) (href j hj)
  refine ⟨⟨?_, ?_, ?_, ?_, hnodup, ?_, ?_⟩, ?_⟩
  · rw [entryPoints_prune, List.length_map]
    exact h.entryCount
  · rw [entryPoints_prune, List.pairwise_map]
    apply h.increasing.imp_of_mem
    intro i j hi hj hij
    exact renumber_lt_renumber (hentry i hi) (hentry j hj) hij
  · intro k hk
    rw [entryPoints_prune, references_prune, ← List.map_append] at hk
    obtain ⟨i, hi, rfl⟩ := List.mem_map.1 hk
    refine exists_renumber_eq.2 ⟨i, ?_, rfl⟩
    rcases List.mem_append.1 hi with hi | hi
    · exact hentry i hi
    · exact href i hi
  · intro k hk hmem
    rw [entryPoints_prune] at hk
    rw [references_prune] at hmem
    obtain ⟨i, hi, rfl⟩ := List.mem_map.1 hk
    obtain ⟨j, hj, hij⟩ := List.mem_map.1 hmem
    cases renumber_inj (href j hj) (hentry i hi) hij
    exact h.unreferenced i hi (hsub.subset hj)
  · intro k k' hk'
    obtain ⟨i, hi, rfl⟩ := exists_renumber_eq.1 (lt_size_of_mem_callees hk')
    rw [callees_prune hi] at hk'
    obtain ⟨j, hj, rfl⟩ := List.mem_map.1 hk'
    exact renumber_lt_renumber (hcallee i hi j hj) hi (h.descending i j hj)
  · intro f' hf'
    rw [functions_prune] at hf'
    obtain ⟨f, hf, rfl⟩ := List.mem_map.1 hf'
    obtain ⟨harity, hslots⟩ := h.bounded f ((keptOf_sublist rfl).subset hf)
    refine ⟨harity, ?_⟩
    rwa [Term.slots_rename]
  · intro k hk hnot
    apply List.count_eq_one_of_mem hnodup
    obtain ⟨i, hi, rfl⟩ := exists_renumber_eq.1 hk
    rcases entry_or_callee_of_mem_kept hi with hmem | ⟨j, hj, hij⟩
    · exact absurd (List.mem_map_of_mem hmem) hnot
    · rw [references_prune]
      exact List.mem_map_of_mem (mem_references_keptOf.2 ⟨j, hj, hij⟩)

/-! ### Adding a unit -/

/-- The functions of a unit, the last of which is that of the unit itself, can be put after those of
other units. -/
theorem Sound.append {g : Graph} {n : Nat} (h : g.Sound n) {new : List Function} {last : Nat}
    {l : Option Location} (hlast : last + 1 = g.size + new.length)
    (hnew : Lowered g.size new [.getFunction last l])
    (hbounded : ∀ f ∈ g.functions ++ new, f.Bounded) :
    Sound ⟨g.functions ++ new, g.entryPoints ++ [last]⟩ (n + 1) := by
  obtain ⟨hnodup, hrange, hdescending⟩ := hnew
  simp only [List.flatMap_cons, List.flatMap_nil, Term.callees_getFunction, List.append_nil,
    List.mem_append] at hnodup hrange
  have hsize : size ⟨g.functions ++ new, g.entryPoints ++ [last]⟩ = last + 1 := by
    rw [hlast]
    exact List.length_append
  have hle : g.size ≤ last := (hrange last (.inr List.mem_cons_self)).1
  -- The unit itself is not referred to, and nothing before the unit refers to it.
  have hnotMem : last ∉ references new := by
    intro hmem
    exact List.disjoint_of_nodup_append hnodup hmem List.mem_cons_self
  have hold : ∀ j ∈ references g.functions, j < g.size := by
    intro j hj
    exact h.inRange j (List.mem_append_right _ hj)
  have hentry : ∀ i ∈ g.entryPoints, i < g.size := by
    intro i hi
    exact h.inRange i (List.mem_append_left _ hi)
  refine ⟨?_, ?_, ?_, ?_, ?_, ?_, hbounded⟩
  · simp [h.entryCount]
  · rw [List.pairwise_append]
    refine ⟨h.increasing, List.pairwise_singleton _ _, ?_⟩
    intro i hi j hj
    cases List.mem_singleton.1 hj
    exact Nat.lt_of_lt_of_le (hentry i hi) hle
  · intro i hi
    rw [hsize]
    simp only [references_append, List.mem_append, List.mem_singleton] at hi
    rcases hi with (hi | rfl) | hi | hi
    · have := hentry i hi
      omega
    · omega
    · have := hold i hi
      omega
    · have := hrange i (.inl hi)
      omega
  · intro i hi hmem
    simp only [references_append, List.mem_append, List.mem_singleton] at hi hmem
    rcases hi with hi | rfl
    · rcases hmem with hmem | hmem
      · exact h.unreferenced i hi hmem
      · have := hentry i hi
        have := (hrange i (.inl hmem)).1
        omega
    · rcases hmem with hmem | hmem
      · have := hold i hmem
        omega
      · exact hnotMem hmem
  · rw [references_append]
    apply h.nodup.append (List.nodup_append.1 hnodup).1
    intro j hj hj'
    have := hold j hj
    have := (hrange j (.inl hj')).1
    omega
  · intro i j hj
    rw [callees] at hj
    by_cases hi : i < g.size
    · rw [List.getElem?_append_left hi] at hj
      exact h.descending i j hj
    · have hge : g.functions.length ≤ i := Nat.le_of_not_lt hi
      rw [List.getElem?_append_right hge] at hj
      cases hf : new[i - g.functions.length]? with
      | none =>
        rw [hf] at hj
        cases hj
      | some f =>
        rw [hf] at hj
        have hlt := hdescending _ f hf j hj
        rw [size] at hlt
        omega

/-- A unit that is added to a well-formed graph leaves it well formed, with one more entry point. -/
theorem WellFormed.addEntry {g : Graph} {n : Nat} (h : g.WellFormed n) {body : List Code}
    {r : Resolved} {fs : List Function} {pre : List Term} {t : Term}
    (hr : (Code.unit body).resolve? Frame.initial = some (Frame.initial, r))
    (hl : r.lower? g.functions = some (fs, pre, t)) :
    (Builder.addEntry { g with functions := fs }).WellFormed (n + 1) := by
  obtain ⟨hbounded, -⟩ := Code.bounded_lower? _ Frame.proper_initial hr hl h.bounded
  obtain ⟨new, rfl, hnew⟩ := r.lowered_lower? hl
  obtain ⟨start, inner, rs, -, -, -, rfl⟩ := Code.resolve?_function.1 hr
  obtain ⟨fs₁, terms, -, hfs, rfl, rfl⟩ := Resolved.lower?_function.1 hl
  have hlast : fs₁.length + 1 = g.size + new.length := by
    rw [size, ← List.length_append, hfs, List.length_append]
    rfl
  have hindex : size { g with functions := g.functions ++ new } - 1 = fs₁.length := by
    rw [size, List.length_append, ← size, ← hlast]
    rfl
  rw [Builder.addEntry, hindex]
  exact (h.toSound.append hlast hnew hbounded).prune

end Graph

/-! ### Units one after another -/

/-- A builder that went through units, given by their lexers, one after another. Each unit was
complete before the next one began. -/
inductive Parsed : List Lexer → Builder → Prop
  | nil : Parsed [] {}
  | snoc {ls : List Lexer} {l : Lexer} {b b' : Builder} {n : Nat} {p : Parser} (h : Parsed ls b)
      (hrun : (Parser.ofLexer l b).run n = .ok p) (hdone : p.builder? = some b') :
      Parsed (ls ++ [l]) b'

/-- A step from one unit to the next: the builder is outside of any function again, and its graph is
well formed. -/
lemma wellFormed_of_run {l : Lexer} {b b' : Builder} {n k : Nat} {p : Parser}
    (hb : b.view.functions = []) (hg : b.graph.WellFormed k)
    (hrun : (Parser.ofLexer l b).run n = .ok p) (hdone : p.builder? = some b') :
    b'.view.functions = [] ∧ b'.graph.WellFormed (k + 1) := by
  rw [Parser.builder?, Option.ite_none_right_eq_some] at hdone
  obtain ⟨hdone, hb'⟩ := hdone
  cases hb'
  obtain ⟨-, body, m, -, hm, hmachine⟩ := Parser.run_ofLexer_sound hrun (.inr hdone)
  obtain ⟨r, fs, pre, t, hr, hl, hview⟩ := Machine.run?_unit hb hmachine
  have hgraph : m.builder.graph = Builder.addEntry { b.graph with functions := fs } :=
    congrArg View.graph hview
  rw [hm]
  refine ⟨(congrArg View.functions hview).trans hb, ?_⟩
  rw [hgraph]
  exact hg.addEntry hr hl

/-- The graph of units that were parsed one after another is well formed, and its references form a
forest with the entry points as roots. -/
theorem wellFormed_of_parsed {ls : List Lexer} {b : Builder} (h : Parsed ls b) :
    b.graph.WellFormed ls.length ∧
      ∀ i < b.graph.size, ∃! e, e ∈ b.graph.entryPoints ∧ b.graph.Leads e i := by
  have hinv : b.view.functions = [] ∧ b.graph.WellFormed ls.length := by
    induction h with
    | nil => exact ⟨rfl, Graph.wellFormed_nil⟩
    | snoc _ hrun hdone ih =>
      rw [List.length_append]
      exact wellFormed_of_run ih.1 ih.2 hrun hdone
  exact ⟨hinv.2, fun _ hi => hinv.2.existsUnique_entry hi⟩

/-- A text and a part of a text. -/
def windows : List Lexer :=
  [.ofWindow .standard (Utf8.encode "let a = fun (x) \x7b fun \x7b\x7d; x \x7d") 0 29,
    .ofWindow .standard (Utf8.encode "a + b = fun \x7b\x7d") 4 10]

theorem wellFormed_of_parsed_windows :
    ∃ b : Builder, Parsed windows b ∧ b.graph.WellFormed 2 := by
  have hsome : ∃ l l', windows = [l, l'] ∧
      (((Parser.ofLexer l {}).run 9).toOption.bind fun p => p.builder?.bind fun b =>
        ((Parser.ofLexer l' b).run 9).toOption.bind Parser.builder?).isSome = true :=
    ⟨_, _, rfl, by decide +kernel⟩
  obtain ⟨l, l', hwindows, hsome⟩ := hsome
  obtain ⟨b, h⟩ := Option.isSome_iff_exists.1 hsome
  obtain ⟨p, hp, h⟩ := Option.bind_eq_some_iff.1 h
  obtain ⟨b₁, hb₁, h⟩ := Option.bind_eq_some_iff.1 h
  obtain ⟨p', hp', hb⟩ := Option.bind_eq_some_iff.1 h
  have hparsed : Parsed [l, l'] b :=
    (Parsed.nil.snoc (toOption_eq_some.1 hp) hb₁).snoc (toOption_eq_some.1 hp') hb
  rw [hwindows]
  exact ⟨b, hparsed, (wellFormed_of_parsed hparsed).1⟩

end ScriptGraph
