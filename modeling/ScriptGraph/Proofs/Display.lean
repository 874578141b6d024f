import ScriptGraph.Proofs.Display.Labels

/-!
# Displays tell graphs apart

The guides before the line of a node say whether siblings follow it, and which of the lines after it
are those beneath it. So a tree can be read back from its lines, and a graph from its display, but
for the places of its terms and for entry points that denote no function.
-/

namespace ScriptGraph

/-! ### Lines -/

namespace Tree

/-- The guide on the line of a tree that others may follow. -/
def corner (ts : List Tree) : String := if ts.isEmpty then "╰─" else "├─"

/-- The guide on the lines beneath it. -/
def bar (ts : List Tree) : String := if ts.isEmpty then "  " else "│ "

variable {t u : Tree} {ts us : List Tree}

lemma lines_eq (lead guide : String) (t : Tree) :
    t.lines false lead guide = (lead ++ t.label) :: linesAll false guide t.children := by
  cases t with
  | node kind data children =>
    rw [lines, label, ← String.append_assoc]
    rfl

lemma linesAll_cons (guide : String) (t : Tree) (ts : List Tree) :
    linesAll false guide (t :: ts) =
      (guide ++ corner ts ++ t.label) :: linesAll false (guide ++ bar ts) t.children ++
        linesAll false guide ts := by
  cases ts with
  | nil =>
    have hlast : linesAll false guide [t] = t.lines false (guide ++ "╰─") (guide ++ "  ") := rfl
    rw [hlast, lines_eq]
    exact (List.append_nil _).symm
  | cons u us =>
    have hnext : linesAll false guide (t :: u :: us) =
        t.lines false (guide ++ "├─") (guide ++ "│ ") ++ linesAll false guide (u :: us) := rfl
    rw [hnext, lines_eq]
    rfl

/-- A longer guide is put before every line. -/
lemma linesAll_append (lead guide : String) (ts : List Tree) :
    linesAll false (lead ++ guide) ts = (linesAll false guide ts).map (lead ++ ·) := by
  match ts with
  | [] => rfl
  | node kind data cs :: ts =>
    have hchildren := linesAll_append lead (guide ++ bar ts) cs
    simp only [linesAll_cons, children, List.map_append, List.map_cons, String.append_assoc,
      hchildren, linesAll_append lead guide ts]

/-- The lines of a tree and of those that follow it, without a guide. -/
lemma linesAll_empty_cons (t : Tree) (ts : List Tree) :
    linesAll false "" (t :: ts) =
      (corner ts ++ t.label) :: (linesAll false "" t.children).map (bar ts ++ ·) ++
        linesAll false "" ts := by
  have hbeneath := linesAll_append (bar ts) "" t.children
  rw [String.append_empty] at hbeneath
  rw [linesAll_cons, String.empty_append, String.empty_append, hbeneath]

/-- A line that has a tree above it on which it hangs. -/
def IsBeneath (line : String) : Prop := ∃ c ∈ line.toList.head?, c = ' ' ∨ c = '│'

lemma isBeneath_bar (ts : List Tree) (line : String) : IsBeneath (bar ts ++ line) := by
  cases ts with
  | nil => exact ⟨' ', by simp [bar], .inl rfl⟩
  | cons => exact ⟨'│', by simp [bar], .inr rfl⟩

/-- The lines beneath a tree end where the next one starts. -/
lemma not_isBeneath_head (ts : List Tree) :
    ∀ line ∈ (linesAll false "" ts).head?, ¬IsBeneath line := by
  cases ts with
  | nil => exact fun line hline => absurd hline (by simp [linesAll])
  | cons t ts =>
    intro line hline
    rw [linesAll_empty_cons] at hline
    obtain rfl := Option.some.inj hline
    rintro ⟨c, hc, hblank⟩
    cases ts with
    | nil =>
      obtain rfl : '╰' = c := by simpa [corner] using hc
      exact absurd hblank (by decide)
    | cons =>
      obtain rfl : '├' = c := by simpa [corner] using hc
      exact absurd hblank (by decide)

/-- The corner says whether trees follow. -/
lemma corner_append_inj {s s' : String} (h : corner ts ++ s = corner us ++ s') :
    bar ts = bar us ∧ s = s' := by
  have htext := congrArg String.toList h
  rw [String.toList_append, String.toList_append] at htext
  cases ts <;> cases us
  case nil.cons | cons.nil => simp [corner] at htext
  all_goals exact ⟨rfl, (String.append_right_inj _).1 h⟩

/-- The first of some trees, what is beneath it and the other trees are read back from the lines. -/
lemma linesAll_cons_inj (h : linesAll false "" (t :: ts) = linesAll false "" (u :: us)) :
    t.label = u.label ∧ linesAll false "" t.children = linesAll false "" u.children ∧
      linesAll false "" ts = linesAll false "" us := by
  rw [linesAll_empty_cons, linesAll_empty_cons] at h
  obtain ⟨hfirst, htail⟩ := List.cons.inj h
  obtain ⟨hbar, hlabel⟩ := corner_append_inj hfirst
  have hhang (vs : List Tree) (lines : List String) :
      ∀ line ∈ lines.map (bar vs ++ ·), IsBeneath line := by
    intro line hline
    obtain ⟨rest, -, rfl⟩ := List.mem_map.1 hline
    exact isBeneath_bar vs rest
  obtain ⟨hbeneath, hrest⟩ := append_inj_of_run (hhang ts _) (hhang us _)
    (not_isBeneath_head ts) (not_isBeneath_head us) htail
  rw [hbar] at hbeneath
  have hcancel (s s' : String) (h : bar us ++ s = bar us ++ s') : s = s' :=
    (String.append_right_inj _).1 h
  exact ⟨hlabel, (List.map_inj_right hcancel).1 hbeneath, hrest⟩

lemma linesAll_cons_ne_nil (t : Tree) (ts : List Tree) : linesAll false "" (t :: ts) ≠ [] := by
  rw [linesAll_empty_cons]
  exact List.cons_ne_nil _ _

/-- The line of each tree is one line of a display. -/
lemma lineFeed_notMem_linesAll_cons (hlabel : '\n' ∉ t.label.toList)
    (hchildren : ∀ line ∈ linesAll false "" t.children, '\n' ∉ line.toList)
    (hrest : ∀ line ∈ linesAll false "" ts, '\n' ∉ line.toList) :
    ∀ line ∈ linesAll false "" (t :: ts), '\n' ∉ line.toList := by
  have hguides : '\n' ∉ (corner ts).toList ∧ '\n' ∉ (bar ts).toList := by
    cases ts <;> simp [corner, bar]
  intro line hline
  rw [linesAll_empty_cons] at hline
  rcases List.mem_append.1 hline with hline | hline
  · rcases List.mem_cons.1 hline with rfl | hline
    · exact lineFeed_notMem_append hguides.1 hlabel
    · obtain ⟨rest, hmem, rfl⟩ := List.mem_map.1 hline
      exact lineFeed_notMem_append hguides.2 (hchildren rest hmem)
  · exact hrest line hline

end Tree

/-- Lines without line feeds are read back from a text. -/
lemma join_lines_inj {xs ys : List String} (hxs : ∀ x ∈ xs, '\n' ∉ x.toList)
    (hys : ∀ y ∈ ys, '\n' ∉ y.toList)
    (h : String.join (xs.map (· ++ "\n")) = String.join (ys.map (· ++ "\n"))) : xs = ys := by
  have hcons (x : String) (xs : List String) :
      (String.join ((x :: xs).map (· ++ "\n"))).toList =
        x.toList ++ '\n' :: (String.join (xs.map (· ++ "\n"))).toList := by
    simp [String.toList_join]
  induction xs generalizing ys with
  | nil =>
    cases ys with
    | nil => rfl
    | cons y ys =>
      have htext := congrArg String.toList h
      rw [hcons] at htext
      exact absurd htext.symm (by simp)
  | cons x xs ih =>
    cases ys with
    | nil =>
      have htext := congrArg String.toList h
      rw [hcons] at htext
      exact absurd htext (by simp)
    | cons y ys =>
      have htext := congrArg String.toList h
      rw [hcons, hcons] at htext
      obtain ⟨hx, hxs⟩ := List.forall_mem_cons.1 hxs
      obtain ⟨hy, hys⟩ := List.forall_mem_cons.1 hys
      obtain ⟨hfirst, hrest⟩ := append_inj_of_delimiter hx hy htext
      rw [String.toList_inj.1 hfirst, ih hxs hys (String.toList_inj.1 hrest)]

/-! ### Terms -/

namespace Term

lemma children_tree (t : Term) : t.tree.children = trees t.children := by
  rw [tree_eq]
  rfl

lemma sizeOf_children (t : Term) : sizeOf t.children ≤ sizeOf t := by
  have hlocation (l : Option Location) : 0 < sizeOf l := by cases l <;> simp
  cases t with
  | setLocal _ _ l | setGlobal _ _ l =>
    have hpos := hlocation l
    simp only [children, List.cons.sizeOf_spec, List.nil.sizeOf_spec, setLocal.sizeOf_spec,
      setGlobal.sizeOf_spec]
    omega
  | _ =>
    simp only [children, List.nil.sizeOf_spec, value.sizeOf_spec, block.sizeOf_spec,
      getLocal.sizeOf_spec, getGlobal.sizeOf_spec, getFunction.sizeOf_spec]
    omega

/-- Induction on lists of terms, where each term stands before those beneath it and those that
follow it. -/
@[elab_as_elim]
theorem inductionOn {motive : List Term → Prop} (ts : List Term) (nil : motive [])
    (cons : ∀ t ts, motive t.children → motive ts → motive (t :: ts)) : motive ts := by
  match ts with
  | [] => exact nil
  | t :: ts => exact cons t ts (inductionOn t.children nil cons) (inductionOn ts nil cons)
termination_by sizeOf ts
decreasing_by
  · have hsize := t.sizeOf_children
    simp only [List.cons.sizeOf_spec]
    omega
  · simp only [List.cons.sizeOf_spec]
    omega

/-- Terms are read back from their lines, but for the places that they come from. -/
lemma placeless_of_linesAll {ts us : List Term}
    (h : Tree.linesAll false "" (trees ts) = Tree.linesAll false "" (trees us)) :
    ts.map placeless = us.map placeless := by
  induction ts using inductionOn generalizing us with
  | nil =>
    cases us with
    | nil => rfl
    | cons u us => exact absurd h.symm (Tree.linesAll_cons_ne_nil u.tree (trees us))
  | cons t ts ihchildren ih =>
    cases us with
    | nil => exact absurd h (Tree.linesAll_cons_ne_nil t.tree (trees ts))
    | cons u us =>
      obtain ⟨hlabel, hchildren, hrest⟩ := Tree.linesAll_cons_inj h
      rw [children_tree, children_tree] at hchildren
      have hfirst := placeless_of_label hlabel (ihchildren hchildren)
      rw [List.map_cons, List.map_cons, hfirst, ih hrest]

lemma kind_placeless (t : Term) : t.placeless.kind = t.kind := by
  cases t <;> rfl

lemma data_placeless (t : Term) : t.placeless.data = t.data := by
  cases t <;> rfl

lemma children_placeless (t : Term) : t.placeless.children = t.children.map placeless := by
  cases t with
  | block ts l =>
    rw [placeless_block]
    rfl
  | _ => rfl

/-- The tree of a term does not show the places that its parts come from. -/
lemma trees_placeless (ts : List Term) : trees (ts.map placeless) = trees ts := by
  induction ts using inductionOn with
  | nil => rfl
  | cons t ts ihchildren ih =>
    rw [List.map_cons, trees, trees, ih, tree_eq, kind_placeless, data_placeless,
      children_placeless, ihchildren, ← tree_eq]

lemma lineFeed_notMem_linesAll {ts : List Term}
    (h : ∀ t ∈ ts, ∀ n ∈ t.globalNames, '\n' ∉ n.toList) :
    ∀ line ∈ Tree.linesAll false "" (trees ts), '\n' ∉ line.toList := by
  induction ts using inductionOn with
  | nil => exact fun line hline => absurd hline (by simp [trees, Tree.linesAll])
  | cons t ts ihchildren ih =>
    obtain ⟨hfirst, hrest⟩ := List.forall_mem_cons.1 h
    have hchildren := ihchildren fun u hu n hn => hfirst n (globalNames_child hu hn)
    rw [← children_tree] at hchildren
    exact Tree.lineFeed_notMem_linesAll_cons (lineFeed_notMem_label hfirst) hchildren (ih hrest)

end Term

/-! ### Functions -/

namespace Function

/-- Functions with the same root, but for the places of its terms. -/
structure Alike (f f' : Function) : Prop where
  localCount : f.localCount = f'.localCount
  arity : f.arity = f'.arity
  root : f.root.placeless = f'.root.placeless

/-- The trees of functions whose indices start at a number. -/
def trees (isEntry : Nat → Bool) (start : Nat) (fs : List Function) : List Tree :=
  (fs.zipIdx start).map fun (f, i) => f.tree i (isEntry i)

variable {isEntry isEntry' : Nat → Bool} {start : Nat} {f f' : Function} {fs fs' : List Function}

lemma trees_cons :
    trees isEntry start (f :: fs) =
      f.tree start (isEntry start) :: trees isEntry (start + 1) fs := rfl

lemma children_tree (f : Function) (index : Nat) (b : Bool) :
    (f.tree index b).children = Term.trees [f.root] := rfl

/-- What holds of the entry at an index and after it holds from the index on. -/
lemma forall_lt_succ_length {p : Nat → Prop} (hstart : p start)
    (hrest : ∀ i, start + 1 ≤ i → i < start + 1 + fs.length → p i) :
    ∀ i, start ≤ i → i < start + (f :: fs).length → p i := by
  intro i hi hlt
  rw [List.length_cons] at hlt
  rcases Nat.eq_or_lt_of_le hi with rfl | hi
  · exact hstart
  · exact hrest i hi (by omega)

/-- Functions and their part in a graph are read back from their lines. -/
lemma alike_of_linesAll (h : Tree.linesAll false "" (trees isEntry start fs) =
      Tree.linesAll false "" (trees isEntry' start fs')) :
    List.Forall₂ Alike fs fs' ∧
      ∀ i, start ≤ i → i < start + fs.length → isEntry i = isEntry' i := by
  induction fs generalizing start fs' with
  | nil =>
    cases fs' with
    | nil => exact ⟨.nil, fun i hi hlt => absurd hlt (by simpa using hi)⟩
    | cons f' fs' => exact absurd h.symm (Tree.linesAll_cons_ne_nil _ _)
  | cons f fs ih =>
    cases fs' with
    | nil => exact absurd h (Tree.linesAll_cons_ne_nil _ _)
    | cons f' fs' =>
      rw [trees_cons, trees_cons] at h
      obtain ⟨hlabel, hchildren, hrest⟩ := Tree.linesAll_cons_inj h
      rw [children_tree, children_tree] at hchildren
      obtain ⟨hlocals, harity, hentry⟩ := label_inj hlabel
      have hroot := List.singleton_inj.1 (Term.placeless_of_linesAll hchildren)
      obtain ⟨halike, hentries⟩ := ih hrest
      exact ⟨.cons ⟨hlocals, harity, hroot⟩ halike, forall_lt_succ_length hentry hentries⟩

/-- The tree of a function does not show the places of its terms. -/
lemma Alike.tree_eq (h : f.Alike f') (index : Nat) (b : Bool) :
    f.tree index b = f'.tree index b := by
  have hroot : Term.trees [f.root] = Term.trees [f'.root] := by
    rw [← Term.trees_placeless [f.root], ← Term.trees_placeless [f'.root], List.map_singleton,
      List.map_singleton, h.root]
  rw [Function.tree_eq, Function.tree_eq, hroot, info, info, h.localCount, h.arity]

lemma trees_eq_of_alike (h : List.Forall₂ Alike fs fs')
    (hentry : ∀ i, start ≤ i → i < start + fs.length → isEntry i = isEntry' i) :
    trees isEntry start fs = trees isEntry' start fs' := by
  induction h generalizing start with
  | nil => rfl
  | @cons f f' fs fs' hfirst _ ih =>
    have hrest : ∀ i, start + 1 ≤ i → i < start + 1 + fs.length → isEntry i = isEntry' i :=
      fun i hi hlt => hentry i (by omega) (by rw [List.length_cons]; omega)
    rw [trees_cons, trees_cons, hfirst.tree_eq, ih hrest, hentry start le_rfl (by simp)]

lemma lineFeed_notMem_linesAll
    (h : ∀ f ∈ fs, ∀ n ∈ f.root.globalNames, '\n' ∉ n.toList) :
    ∀ line ∈ Tree.linesAll false "" (trees isEntry start fs), '\n' ∉ line.toList := by
  induction fs generalizing start with
  | nil => exact fun line hline => absurd hline (by simp [trees, Tree.linesAll])
  | cons f fs ih =>
    obtain ⟨hfirst, hrest⟩ := List.forall_mem_cons.1 h
    exact Tree.lineFeed_notMem_linesAll_cons (lineFeed_notMem_label f _ _)
      (Term.lineFeed_notMem_linesAll (List.forall_mem_singleton.2 hfirst)) (ih hrest)

end Function

/-! ### Graphs -/

namespace Graph

/-- The globals that a graph names. -/
def globalNames (g : Graph) : List String := g.functions.flatMap fun f => f.root.globalNames

/-- Graphs that differ in the places of their terms only, and in what their entry points say besides
which functions are entry points. -/
structure Alike (g h : Graph) : Prop where
  functions : List.Forall₂ Function.Alike g.functions h.functions
  entryPoints : ∀ i < g.size, i ∈ g.entryPoints ↔ i ∈ h.entryPoints

lemma lines_tree (g : Graph) :
    g.tree.lines false "" "" =
      "Graph" :: Tree.linesAll false "" (Function.trees g.entryPoints.contains 0 g.functions) := by
  rw [Tree.lines_eq]
  rfl

/-- The display is a line for each node, unless the name of a global is not on one line. -/
lemma lineFeed_notMem_lines {g : Graph} (h : ∀ n ∈ g.globalNames, '\n' ∉ n.toList) :
    ∀ line ∈ g.tree.lines false "" "", '\n' ∉ line.toList := by
  have hgraph : '\n' ∉ "Graph".toList := by decide
  rw [lines_tree]
  refine List.forall_mem_cons.2 ⟨hgraph, Function.lineFeed_notMem_linesAll ?_⟩
  exact fun f hf n hn => h n (List.mem_flatMap.2 ⟨f, hf, hn⟩)

/-- The display of a graph says what functions it has, each with its locals, parameters and terms,
and which of them are entry points, and it says no more. -/
theorem display_eq_iff {g h : Graph} (hg : ∀ n ∈ g.globalNames, '\n' ∉ n.toList)
    (hh : ∀ n ∈ h.globalNames, '\n' ∉ n.toList) :
    g.display false = h.display false ↔ g.Alike h := by
  constructor
  · intro heq
    have hlines := join_lines_inj (lineFeed_notMem_lines hg) (lineFeed_notMem_lines hh) heq
    rw [lines_tree, lines_tree] at hlines
    obtain ⟨hfunctions, hentries⟩ := Function.alike_of_linesAll (List.cons.inj hlines).2
    refine ⟨hfunctions, fun i hi => ?_⟩
    have hsame := hentries i (Nat.zero_le i) (by rw [Nat.zero_add]; exact hi)
    rw [← List.contains_iff_mem, ← List.contains_iff_mem, hsame]
  · intro halike
    have hentries : ∀ i, 0 ≤ i → i < 0 + g.functions.length →
        g.entryPoints.contains i = h.entryPoints.contains i := by
      intro i _ hi
      rw [Nat.zero_add] at hi
      rw [Bool.eq_iff_iff, List.contains_iff_mem, List.contains_iff_mem]
      exact halike.entryPoints i hi
    rw [display, display, Tree.render, Tree.render, lines_tree, lines_tree,
      Function.trees_eq_of_alike halike.functions hentries]

/-- A graph of one function that writes a text to a global. -/
def writing (name text : String) (location : Option Location) (entryPoints : List Nat) : Graph where
  functions := [⟨0, 0, .setGlobal name (.value (.string text) location) location⟩]
  entryPoints := entryPoints

theorem display_eq_iff_writing :
    (∀ n ∈ (writing "a)" "b" none [0]).globalNames, '\n' ∉ n.toList) ∧
      (∀ n ∈ (writing "a)" "b" (some ⟨1, 1⟩) [0, 7]).globalNames, '\n' ∉ n.toList) ∧
      (∀ n ∈ (writing "a" "\n" none [0]).globalNames, '\n' ∉ n.toList) ∧
      (writing "a)" "b" none [0]).display false =
        (writing "a)" "b" (some ⟨1, 1⟩) [0, 7]).display false ∧
      (writing "a)" "b" none [0]).display false ≠ (writing "a" "\n" none [0]).display false := by
  have hname (name text : String) (l : Option Location) (es : List Nat) (h : '\n' ∉ name.toList) :
      ∀ n ∈ (writing name text l es).globalNames, '\n' ∉ n.toList := List.forall_mem_singleton.2 h
  have hfirst := hname "a)" "b" none [0] (by decide)
  have hmoved := hname "a)" "b" (some ⟨1, 1⟩) [0, 7] (by decide)
  have hother := hname "a" "\n" none [0] (by decide)
  refine ⟨hfirst, hmoved, hother, (display_eq_iff hfirst hmoved).2 ?_, fun heq => ?_⟩
  · refine ⟨.cons ⟨rfl, rfl, rfl⟩ .nil, fun i hi => ?_⟩
    obtain rfl := Nat.lt_one_iff.1 hi
    decide
  · obtain ⟨hfunctions, -⟩ := (display_eq_iff hfirst hother).1 heq
    obtain ⟨⟨-, -, hroot⟩, -⟩ := List.forall₂_cons.1 hfunctions
    simp [Term.placeless, Term.rename] at hroot

end Graph

end ScriptGraph
