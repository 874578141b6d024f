import ScriptGraph.Proofs.Machine
import ScriptGraph.Proofs.RoundTrip.Terms

/-!
# Graphs loaded from their documents

A graph whose references all denote functions is loaded from its document, compact or indented, as
it was saved, if and only if its numbers are all finite and its document nests no deeper than the
reader allows (`load_saved_iff`). The writer checks neither: a number that is not finite is loaded
as the undefined value, and a document that nests too deep is refused.
-/

namespace ScriptGraph

open Json (Answers AnswersMember Fault Spacing wordLimit)

/-! ### Functions -/

namespace Function

/-- The counts of a function and the words of its body. -/
def words (f : Function) : List Nat := f.localCount :: f.arity :: f.root.words

/-- What has been read of a function. -/
abbrev Fields : Type := Option Nat × Option Nat × Option Term

/-- How a member of a function is read. -/
def readMember (levels : Nat) (s : Fields) (k : String) : Json.Reader Fields :=
  if k = "local_count" then Json.field s.1 Json.word fun x => (some x, s.2)
  else if k = "arity" then Json.field s.2.1 Json.word fun x => (s.1, some x, s.2.2)
  else if k = "root" then Json.field s.2.2 (Term.read levels) fun x => (s.1, s.2.1, some x)
  else Json.ignore s

/-- What is read of a member of a function. -/
def stepMember (f : Function) (levels : Nat) (s : Fields) (m : String × Json.Value) :
    Option Fields :=
  if m.1 = "local_count" then if s.1.isSome then none else some (some f.localCount, s.2)
  else if m.1 = "arity" then if s.2.1.isSome then none else some (s.1, some f.arity, s.2.2)
  else if s.2.2.isSome then none
  else if f.root.toJson.depth ≤ levels then some (s.1, s.2.1, some f.root.reloaded) else none

/-- The function of which the fields have been read. -/
def ofFields (s : Fields) : Except Fault Function := do
  return ⟨← Json.required s.1, ← Json.required s.2.1, ← Json.required s.2.2⟩

@[simp] lemma ofFields_some (count arity : Nat) (root : Term) :
    ofFields (some count, some arity, some root) = .ok ⟨count, arity, root⟩ := rfl

lemma readByName_eq (levels : Nat) : readByName levels = fun cs => do
    let (s, rest) ← Json.members (readMember levels) (none, none, none) cs
    return (← ofFields s, rest) := by
  funext cs
  simp only [readByName, ofFields, bind_assoc, pure_bind]
  rfl

/-- Each value of a function is read from its text. -/
lemma readable_toJson {f : Function} (hw : ∀ i ∈ f.words, i < wordLimit) (h : f.root.Storable) :
    f.toJson.Readable := by
  have hcount := Json.le_wordMax_of_lt (hw f.localCount (by simp [words]))
  have harity := Json.le_wordMax_of_lt (hw f.arity (by simp [words]))
  simp [toJson, Json.Value.Readable, hcount, harity, Term.readable_toJson h]

/-- The reader of functions takes the text of a function for its reloaded form, if the function
nests no deeper than there are levels. -/
theorem answers_read (s : Spacing) (level : Nat) {n : Nat} (hn : n ≤ Json.maxNesting) {f : Function}
    (hw : ∀ i ∈ f.words, i < wordLimit) (h : f.root.Storable) :
    Answers (read n) (f.toJson.text s level)
      (if f.toJson.depth ≤ n then some f.reloaded else none) := by
  cases n with
  | zero =>
    rw [if_neg (by simp [toJson, Json.Value.depth])]
    exact Json.answers_record_zero _ _ _
  | succ n =>
    obtain ⟨hcount, harity, -⟩ : f.localCount < wordLimit ∧ f.arity < wordLimit ∧ _ := by
      simpa [words] using hw
    have ha : ∀ m ∈ [("local_count", Json.Value.natural f.localCount), ("arity", .natural f.arity),
        ("root", f.root.toJson)],
        AnswersMember s (level + 1) (readMember n) (f.stepMember n) m := by
      simp only [List.forall_mem_cons]
      refine ⟨fun st => ?_, fun st => ?_, fun st => ?_, by simp⟩
      · exact (Json.answers_word hcount).field s st.1 fun x => (some x, st.2)
      · exact (Json.answers_word harity).field s st.2.1 fun x => (st.1, some x, st.2.2)
      · exact (Term.answers_read s (level + 1) (Nat.le_of_succ_le hn) h).field_ite s st.2.2
          fun x => (st.1, st.2.1, some x)
    have read : Answers (Function.read (n + 1)) (f.toJson.text s level) _ :=
      Json.answers_record_succ s level n readByName readInOrder (readByName_eq n) ha
    have depth : f.toJson.depth ≤ n + 1 ↔ f.root.toJson.depth ≤ n := by
      rw [toJson, Json.Value.depth_object_le]
      simp [Json.Value.depth]
    by_cases hd : f.root.toJson.depth ≤ n
    · rw [if_pos (depth.2 hd)]
      simpa [stepMember, hd, reloaded] using read
    · rw [if_neg (mt depth.1 hd)]
      simpa [stepMember, hd] using read

end Function

/-! ### Graphs -/

namespace Graph

/-- The indices, counts and locations in a graph. -/
def words (g : Graph) : List Nat := g.functions.flatMap Function.words ++ g.entryPoints

/-- Whether all indices, counts and locations of a graph are 32-bit words. -/
def Fits (g : Graph) : Prop := ∀ n ∈ g.words, n < wordLimit

/-- The member of a graph with its functions. -/
def functionsMember (g : Graph) : Json.Value := .array (g.functions.map Function.toJson)

/-- The member of a graph with its entry points. -/
def entryPointsMember (g : Graph) : Json.Value := .array (g.entryPoints.map Json.Value.natural)

lemma toJson_eq (g : Graph) : g.toJson =
    .object [("functions", g.functionsMember), ("entry_points", g.entryPointsMember)] := rfl

/-- What has been read of a graph. -/
abbrev Fields : Type := Option (List Function) × Option (List Nat)

/-- How a member of a graph is read. -/
def readMember (levels : Nat) (s : Fields) (k : String) : Json.Reader Fields :=
  if k = "functions" then Json.field s.1 (readFunctions levels) fun x => (some x, s.2)
  else if k = "entry_points" then Json.field s.2 (readEntryPoints levels) fun x => (s.1, some x)
  else Json.ignore s

/-- What is read of a member of a graph. -/
def stepMember (g : Graph) (levels : Nat) (s : Fields) (m : String × Json.Value) : Option Fields :=
  if m.1 = "functions" then
    if s.1.isSome then none
    else if g.functionsMember.depth ≤ levels then
      some (some (g.functions.map Function.reloaded), s.2)
    else none
  else if s.2.isSome then none
  else if g.entryPointsMember.depth ≤ levels then some (s.1, some g.entryPoints)
  else none

/-- The graph of which the fields have been read. -/
def ofFields (s : Fields) : Except Fault Graph := do
  return ⟨← Json.required s.1, ← Json.required s.2⟩

@[simp] lemma ofFields_some (functions : List Function) (entryPoints : List Nat) :
    ofFields (some functions, some entryPoints) = .ok ⟨functions, entryPoints⟩ := rfl

lemma readByName_eq (levels : Nat) : readByName levels = fun cs => do
    let (s, rest) ← Json.members (readMember levels) (none, none) cs
    return (← ofFields s, rest) := by
  funext cs
  simp only [readByName, ofFields, bind_assoc, pure_bind]
  rfl

variable {g : Graph} (hw : g.Fits) (hx : ∀ x ∈ g.numbers, x.isFinite = true → x.ReadsBack)

include hw

lemma answers_readEntryPoints (s : Spacing) (n level : Nat) :
    Answers (readEntryPoints n) (g.entryPointsMember.text s level)
      (if g.entryPointsMember.depth ≤ n then some g.entryPoints else none) := by
  have word : ∀ i ∈ g.entryPoints, i < wordLimit := fun i hi => hw i (List.mem_append_right _ hi)
  have read := Json.answers_arrayOf s n level Json.Value.natural id
    (fun i hi => Json.le_wordMax_of_lt (word i hi))
    (fun _ _ i hi => Json.answers_word (word i hi))
  rwa [List.map_id] at read

include hx

lemma storable_root {f : Function} (hf : f ∈ g.functions) : f.root.Storable where
  fits i hi := hw i <| List.mem_append_left _ <| List.mem_flatMap.2
    ⟨f, hf, List.mem_cons_of_mem _ (List.mem_cons_of_mem _ hi)⟩
  reads x h := hx x (List.mem_flatMap.2 ⟨f, hf, h⟩)

lemma answers_readFunctions (s : Spacing) (level : Nat) {n : Nat} (hn : n ≤ Json.maxNesting) :
    Answers (readFunctions n) (g.functionsMember.text s level)
      (if g.functionsMember.depth ≤ n then some (g.functions.map Function.reloaded) else none) := by
  have words : ∀ f ∈ g.functions, ∀ i ∈ f.words, i < wordLimit := fun f hf i hi =>
    hw i (List.mem_append_left _ (List.mem_flatMap.2 ⟨f, hf, hi⟩))
  exact Json.answers_arrayOf s n level Function.toJson Function.reloaded
    (fun f hf => Function.readable_toJson (words f hf) (storable_root hw hx hf))
    (fun m hm f hf => Function.answers_read s (level + 1) (Nat.le_trans (Nat.le_of_lt hm) hn)
      (words f hf) (storable_root hw hx hf))

/-- The reader of graphs takes the text of a graph for its reloaded form, if the graph nests no
deeper than there are levels. -/
theorem answers_read (s : Spacing) (level : Nat) {n : Nat} (hn : n ≤ Json.maxNesting) :
    Answers (read n) (g.toJson.text s level)
      (if g.toJson.depth ≤ n then some g.reloaded else none) := by
  cases n with
  | zero =>
    rw [if_neg (by simp [toJson_eq, Json.Value.depth])]
    exact Json.answers_record_zero _ _ _
  | succ n =>
    have ha : ∀ m ∈ [("functions", g.functionsMember), ("entry_points", g.entryPointsMember)],
        AnswersMember s (level + 1) (readMember n) (g.stepMember n) m := by
      simp only [List.forall_mem_cons]
      refine ⟨fun st => ?_, fun st => ?_, by simp⟩
      · exact (answers_readFunctions hw hx s (level + 1) (Nat.le_of_succ_le hn)).field_ite s st.1
          fun x => (some x, st.2)
      · exact (answers_readEntryPoints hw s n (level + 1)).field_ite s st.2
          fun x => (st.1, some x)
    have read : Answers (Graph.read (n + 1)) (g.toJson.text s level) _ :=
      Json.answers_record_succ s level n readByName readInOrder (readByName_eq n) ha
    have depth : g.toJson.depth ≤ n + 1 ↔
        g.functionsMember.depth ≤ n ∧ g.entryPointsMember.depth ≤ n := by
      rw [toJson_eq, Json.Value.depth_object_le]
      simp
    by_cases hf : g.functionsMember.depth ≤ n
    · by_cases he : g.entryPointsMember.depth ≤ n
      · rw [if_pos (depth.2 ⟨hf, he⟩)]
        simpa [stepMember, hf, he, reloaded] using read
      · rw [if_neg fun h => he (depth.1 h).2]
        simpa [stepMember, hf, he] using read
    · rw [if_neg fun h => hf (depth.1 h).1]
      simpa [stepMember, hf] using read

/-! ### Loading -/

/-- A saved graph without a dangling reference is loaded as its reloaded form, if its document nests
no deeper than the reader allows, and is refused otherwise. -/
theorem toOption_load (hd : g.dangling? = none) {text : String}
    (ht : text ∈ [g.save, g.saveIndented]) :
    (load text).toOption = if g.toJson.depth ≤ Json.maxNesting then some g.reloaded else none := by
  obtain ⟨s, hs⟩ : ∃ s, text.toList = g.toJson.text s 0 := by
    rcases List.mem_pair.1 ht with rfl | rfl
    · exact ⟨.compact, Json.Value.toList_render 0 _⟩
    · exact ⟨.indented, Json.Value.toList_renderAt 0 _⟩
  have read := answers_read hw hx s 0 (Nat.le_refl Json.maxNesting)
  rw [← hs] at read
  have document := read.toOption_document
  unfold load loadUnchecked
  split_ifs at document ⊢
  · rw [toOption_eq_some.1 document]
    simp only [bind, Except.bind, dangling?_reloaded, hd]
    rfl
  · cases hc : Json.document (Graph.read Json.maxNesting) text with
    | error e => rfl
    | ok g' => simp [hc] at document

end Graph

/-- A graph without a dangling reference is loaded from its compact and from its indented document
as it was saved, exactly or as numbers are compared, if and only if its numbers are all finite and
its document nests no deeper than the reader allows. The writer and the reader are taken to keep
every finite number of the graph. -/
theorem load_saved_iff (g : Graph) (hd : g.dangling? = none) (hw : g.Fits)
    (hx : ∀ x ∈ g.numbers, x.isFinite = true → x.ReadsBack) :
    ∀ text ∈ [g.save, g.saveIndented],
      (Graph.load text = .ok g ↔
        (∀ x ∈ g.numbers, x.isFinite = true) ∧ g.toJson.depth ≤ Json.maxNesting) ∧
      ((∃ g', Graph.load text = .ok g' ∧ g'.equal g = true) ↔
        (∀ x ∈ g.numbers, x.isFinite = true) ∧ g.toJson.depth ≤ Json.maxNesting) := by
  intro text ht
  have load := Graph.toOption_load hw hx hd ht
  rw [← toOption_eq_some, load]
  constructor
  · rw [Option.ite_none_right_eq_some, Option.some.injEq, g.reloaded_eq_self_iff, and_comm]
  · simp only [← toOption_eq_some, load, Option.ite_none_right_eq_some, Option.some.injEq]
    rw [← g.equal_reloaded_iff]
    constructor
    · rintro ⟨g', ⟨hn, rfl⟩, he⟩
      exact ⟨he, hn⟩
    · rintro ⟨he, hn⟩
      exact ⟨_, ⟨hn, rfl⟩, he⟩

/-- A graph with a fraction, a location and texts with escapes. -/
def quoting : Graph where
  functions := [⟨1, 1,
    .setGlobal "a\n\"" (.block [.value (.number (.ofRatio false 3 2)) (some ⟨1, 2⟩),
      .setLocal 0 (.value (.string "\x01é") none) none] none) none⟩]
  entryPoints := [0]

theorem load_saved_iff_quoting :
    quoting.dangling? = none ∧ quoting.Fits ∧
      (∀ x ∈ quoting.numbers, x.isFinite = true → x.ReadsBack) ∧
      Graph.load quoting.save = .ok quoting ∧ Graph.load quoting.saveIndented = .ok quoting := by
  have dangling : quoting.dangling? = none := by decide +kernel
  have fits : ∀ n ∈ quoting.words, n < wordLimit := by decide +kernel
  have numbers : quoting.numbers = [.ofRatio false 3 2] := by decide +kernel
  have reads : ∀ x ∈ quoting.numbers, x.isFinite = true → x.ReadsBack := by
    have read : (Literal.read Json.maxNesting
        (Json.renderNumber (.ofRatio false 3 2)).toList).toOption =
          some (.number (.ofRatio false 3 2), []) := by decide +kernel
    intro x hx _
    obtain rfl : x = .ofRatio false 3 2 := by simpa [numbers] using hx
    exact toOption_eq_some.1 read
  have finite : ∀ x ∈ quoting.numbers, x.isFinite = true := by decide +kernel
  have depth : quoting.toJson.depth ≤ Json.maxNesting := by decide +kernel
  have loads := load_saved_iff quoting dangling fits reads
  exact ⟨dangling, fits, reads, (loads _ (by simp)).1.2 ⟨finite, depth⟩,
    (loads _ (by simp)).1.2 ⟨finite, depth⟩⟩

end ScriptGraph
