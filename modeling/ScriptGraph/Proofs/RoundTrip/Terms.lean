import ScriptGraph.Graph.Document
import ScriptGraph.Proofs.Json.Values
import ScriptGraph.Proofs.RoundTrip.Reloaded

/-!
# Terms read from their documents

The reader of terms takes the text of a term for its reloaded form if the term nests no deeper than
there are levels, and refuses it otherwise (`Term.answers_read`). A term is read in two steps: its
location as it comes, and its other members as values, of which the term is made at the end.
-/

namespace ScriptGraph

open Json (Answers AnswersMember Fault Spacing wordLimit)

/-! ### Literals -/

/-- Whether the text of a number is read as the number. -/
def Number.ReadsBack (x : Number) : Prop :=
  Literal.read Json.maxNesting (Json.renderNumber x).toList = .ok (.number x, [])

namespace Literal

/-- A number that reads back is written as a scalar that denotes it. -/
lemma scalar?_of_readsBack {x : Number} (h : x.ReadsBack) :
    ∃ v, Json.scalar? (Json.renderNumber x).toList = some (.ok (v, [])) ∧
      ofValue v = .ok (.number x) := by
  obtain ⟨⟨v, left⟩, hv, h⟩ := Json.bind_eq_ok.1 h
  obtain ⟨y, hy, h⟩ := Json.bind_eq_ok.1 h
  obtain ⟨rfl, rfl⟩ : y = .number x ∧ left = [] := by simpa using h
  have hd : v.depth = 0 := by cases v <;> simp [ofValue, Json.Value.depth] at hy ⊢
  have hs := Json.scalar?_of_value hv hd
  rw [Json.skipBlanks_renderNumber] at hs
  exact ⟨v, hs, hy⟩

/-- A literal whose number reads back is read from its text as its reloaded form. -/
lemma reread_toJson (v : Literal)
    (h : ∀ x ∈ v.number?, x.isFinite = true → x.ReadsBack) :
    v.toJson.Readable ∧ ofValue v.toJson.reread = .ok v.reloaded := by
  cases v with
  | undefined => exact ⟨trivial, rfl⟩
  | string s => exact ⟨trivial, rfl⟩
  | number x =>
    cases hx : x.isFinite with
    | true =>
      obtain ⟨u, hu, hv⟩ := scalar?_of_readsBack (h x rfl hx)
      exact ⟨⟨u, hu⟩, by simp [toJson, Json.Value.reread, hu, hv, reloaded, hx]⟩
    | false =>
      have hu : Json.scalar? (Json.renderNumber x).toList = some (.ok (.null, [])) := by
        rw [Json.renderNumber_of_not_isFinite hx]
        rfl
      exact ⟨⟨_, hu⟩, by simp [toJson, Json.Value.reread, hu, ofValue, reloaded, hx]⟩

end Literal

/-! ### Locations -/

namespace Location

/-- The numbers of a location. -/
def words (l : Location) : List Nat := [l.line, l.column]

lemma depth_toJson (l : Location) : l.toJson.depth = 1 := rfl

end Location

/-! ### What a term is made of -/

namespace Term

/-- The slots and functions that a term itself refers to. -/
def indices : Term → List Nat
  | getLocal i _ | setLocal i _ _ | getFunction i _ => [i]
  | _ => []

/-- The indices in a term and the numbers of its locations. -/
def words (t : Term) : List Nat :=
  t.subterms.flatMap fun u => u.indices ++ u.location.toList.flatMap Location.words

/-- A term whose parts are all read back: its words are words, and its finite numbers can be read
from their texts. -/
structure Storable (t : Term) : Prop where
  fits : ∀ n ∈ t.words, n < wordLimit
  reads : ∀ x ∈ t.numbers, x.isFinite = true → x.ReadsBack

namespace Storable

variable {t : Term} (h : t.Storable)

include h

lemma child {u : Term} (hu : u ∈ t.children) : u.Storable where
  fits n hn := h.fits n <| by
    rw [words, subterms_eq, List.flatMap_cons, List.flatMap_assoc]
    exact List.mem_append_right _ (List.mem_flatMap.2 ⟨u, hu, hn⟩)
  reads x hx := h.reads x <| by
    rw [numbers, subterms_eq, List.filterMap_cons, List.filterMap_flatMap]
    have := List.mem_flatMap.2 ⟨u, hu, hx⟩
    split
    · exact this
    · exact List.mem_cons_of_mem _ this

lemma index_lt {i : Nat} (hi : i ∈ t.indices) : i < wordLimit := by
  refine h.fits i ?_
  rw [words, subterms_eq, List.flatMap_cons]
  exact List.mem_append_left _ (List.mem_append_left _ hi)

lemma location_lt {l : Location} (hl : t.location = some l) :
    l.line < wordLimit ∧ l.column < wordLimit := by
  have fits n (hn : n ∈ l.words) : n < wordLimit := h.fits n <| by
    rw [words, subterms_eq, List.flatMap_cons]
    simp [hl, hn]
  exact ⟨fits _ (by simp [Location.words]), fits _ (by simp [Location.words])⟩

omit h in
lemma literal {v : Literal} {l : Option Location} (h : (value v l).Storable) :
    ∀ x ∈ v.number?, x.isFinite = true → x.ReadsBack := fun x hx =>
  h.reads x (by simpa [numbers_value] using hx)

end Storable

@[simp] lemma toJsonAll_eq_map (ts : List Term) : toJsonAll ts = ts.map toJson := by
  induction ts with
  | nil => rfl
  | cons t ts ih => simp [toJsonAll, ih]

/-! ### Members of a term -/

/-- The members of a term other than its location. -/
def fields : Term → List (String × Json.Value)
  | value v _ => [("kind", .string "value"), ("value", v.toJson)]
  | block ts _ => [("kind", .string "block"), ("terms", .array (ts.map toJson))]
  | getLocal i _ => [("kind", .string "get_local"), ("index", .natural i)]
  | setLocal i v _ => [("kind", .string "set_local"), ("index", .natural i), ("value", v.toJson)]
  | getGlobal n _ => [("kind", .string "get_global"), ("name", .string n)]
  | setGlobal n v _ => [("kind", .string "set_global"), ("name", .string n), ("value", v.toJson)]
  | getFunction i _ => [("kind", .string "get_function"), ("index", .natural i)]

lemma toJson_eq (t : Term) : t.toJson = .object (t.fields ++ locationMember t.location) := by
  cases t <;> simp [toJson, fields, location]

lemma key_ne_location (t : Term) : ∀ f ∈ t.fields, f.1 ≠ "location" := by
  cases t <;> simp [fields]

lemma key_eq_location (l : Option Location) : ∀ m ∈ locationMember l, m.1 = "location" := by
  cases l <;> simp [locationMember]

/-- A member of a term is no deeper than the term has levels beneath it. -/
lemma depth_toJson_le {t : Term} {n : Nat} :
    t.toJson.depth ≤ n + 1 ↔
      (∀ f ∈ t.fields, f.2.depth ≤ n) ∧ (t.location.isSome → 1 ≤ n) := by
  rw [toJson_eq, Json.Value.depth_object_le, List.forall_mem_append]
  refine and_congr_right fun _ => ?_
  cases t.location <;> simp [locationMember, Location.depth_toJson]

lemma depth_child_lt {t u : Term} (hu : u ∈ t.children) : u.toJson.depth < t.toJson.depth := by
  have hf : ∀ f ∈ t.fields, f.2.depth < t.toJson.depth := by
    intro f hf
    rw [toJson_eq, Json.Value.depth, Nat.lt_succ_iff]
    exact Json.Value.depthMembers_le.1 (Nat.le_refl _) f (List.mem_append_left _ hf)
  cases t with
  | block ts l =>
    have hts := hf ("terms", .array (ts.map toJson)) (by simp [fields])
    have := Json.Value.depth_array_le.1 (Nat.le_succ _) u.toJson (List.mem_map_of_mem hu)
    exact Nat.lt_of_le_of_lt this hts
  | setLocal i v l =>
    obtain rfl : u = v := by simpa [children] using hu
    exact hf ("value", u.toJson) (by simp [fields])
  | setGlobal m v l =>
    obtain rfl : u = v := by simpa [children] using hu
    exact hf ("value", u.toJson) (by simp [fields])
  | _ => simp [children] at hu

lemma mapM_ok {α β : Type} {f : α → Except Fault β} {g : α → β} {xs : List α}
    (h : ∀ x ∈ xs, f x = .ok (g x)) : xs.mapM f = .ok (xs.map g) := by
  induction xs with
  | nil => rfl
  | cons x xs ih =>
    simp only [List.forall_mem_cons] at h
    simp [h.1, ih h.2, bind, Except.bind, pure, Except.pure]

/-- The fields of a term denote its reloaded form, if the terms beneath it do. -/
lemma ofMembers_fields {child : Json.Value → Except Fault Term} {t : Term} (h : t.Storable)
    (hc : ∀ u ∈ t.children, child u.toJson.reread = .ok u.reloaded) :
    ofMembers child (Json.Value.rereadMembers t.fields) t.location = .ok t.reloaded := by
  have word {i : Nat} (hi : i ∈ t.indices) : wordOf (.natural i) = .ok i := by
    simp [wordOf, h.index_lt hi]
  cases t with
  | value v l =>
    have hv := Literal.reread_toJson v h.literal
    simp [ofMembers, fields, memberOf, kindOf, kinds, Json.Value.reread, reloaded, location, hv.2,
      bind, Except.bind, pure, Except.pure]
  | block ts l =>
    have hts : ts.mapM (child ∘ Json.Value.reread ∘ toJson) = .ok (ts.map reloaded) := mapM_ok hc
    simp [ofMembers, fields, memberOf, kindOf, kinds, Json.Value.reread, reloaded, location, hts,
      bind, Except.bind, pure, Except.pure]
  | getLocal i l | setLocal i v l | getGlobal n l | setGlobal n v l | getFunction i l =>
    simp only [indices, children, List.mem_singleton, forall_eq] at word hc
    simp [ofMembers, fields, memberOf, kindOf, kinds, nameOf, Json.Value.reread, reloaded, location,
      word, hc, bind, Except.bind, pure, Except.pure]

lemma filter_fields (t : Term) (l : Option Location) :
    (Json.Value.rereadMembers (t.fields ++ locationMember l)).filter (fun m => m.1 != "location") =
      Json.Value.rereadMembers t.fields := by
  have hf := t.key_ne_location
  have hl := key_eq_location l
  rw [Json.Value.rereadMembers_eq_map, Json.Value.rereadMembers_eq_map, List.filter_map,
    List.filter_append, List.filter_eq_self.2 (by simpa using hf),
    List.filter_eq_nil_iff.2 (by simpa using hl), List.append_nil]

lemma locationOf_fields {t : Term} (h : t.Storable) :
    locationOf (Json.Value.rereadMembers (t.fields ++ locationMember t.location)) =
      .ok t.location := by
  have hf := t.key_ne_location
  rw [locationOf, Json.Value.rereadMembers_eq_map, List.filter_map, List.filter_append,
    List.filter_eq_nil_iff.2 (by simpa using hf), List.nil_append]
  cases hl : t.location with
  | none => rfl
  | some l =>
    obtain ⟨hline, hcolumn⟩ := h.location_lt hl
    simp [locationMember, Location.toJson, Json.Value.reread, Location.ofValue, memberOf, wordOf,
      hline, hcolumn, bind, Except.bind, pure, Except.pure]

/-- The value that is read of a term denotes its reloaded form. -/
lemma ofValue_reread {t : Term} (h : t.Storable) {n : Nat} (hd : t.toJson.depth ≤ n) :
    ofValue n t.toJson.reread = .ok t.reloaded := by
  induction n generalizing t with
  | zero => simp [toJson_eq, Json.Value.depth] at hd
  | succ n ih =>
    have hm : ofMembers (ofValue n) _ _ = _ := ofMembers_fields h fun u hu =>
      ih (h.child hu) (Nat.le_of_lt_succ (Nat.lt_of_lt_of_le (depth_child_lt hu) hd))
    rw [toJson_eq, Json.Value.reread, ofValue, locationOf_fields h, filter_fields]
    exact hm

/-! ### Reading a term -/

lemma readable_fields {t : Term} (h : t.Storable) (hc : ∀ u ∈ t.children, u.toJson.Readable) :
    ∀ f ∈ t.fields, f.2.Readable := by
  have word {i : Nat} (hi : i ∈ t.indices) : i ≤ Json.wordMax :=
    Json.le_wordMax_of_lt (h.index_lt hi)
  cases t with
  | value v l =>
    have hv := Literal.reread_toJson v h.literal
    simp [fields, Json.Value.Readable, hv.1]
  | block ts l => simpa [fields, Json.Value.Readable, children] using hc
  | getLocal i l | setLocal i v l | getGlobal n l | setGlobal n v l | getFunction i l =>
    simp only [indices, children, List.mem_singleton, forall_eq] at word hc
    simp [fields, Json.Value.Readable, word, hc]

/-- Each value of a term is read from its text. -/
lemma readable_toJson {t : Term} (h : t.Storable) : t.toJson.Readable := by
  induction hd : t.toJson.depth using Nat.strongRecOn generalizing t with
  | ind d ih =>
    have hl : ∀ m ∈ locationMember t.location, m.2.Readable := by
      cases hl : t.location with
      | none => simp [locationMember]
      | some l =>
        obtain ⟨hline, hcolumn⟩ := h.location_lt hl
        simp [locationMember, Location.toJson, Json.Value.Readable, Json.le_wordMax_of_lt hline,
          Json.le_wordMax_of_lt hcolumn]
    have hf := readable_fields h fun u hu =>
      ih _ (hd ▸ depth_child_lt hu) (h.child hu) rfl
    rw [toJson_eq]
    simpa [Json.Value.Readable, or_imp, forall_and] using And.intro hf hl

end Term

namespace Location

/-- How a member of a location is read. -/
def readMember (s : Option Nat × Option Nat) (k : String) :
    Json.Reader (Option Nat × Option Nat) :=
  if k = "line" then Json.field s.1 Json.word fun x => (some x, s.2)
  else if k = "column" then Json.field s.2 Json.word fun x => (s.1, some x)
  else Json.ignore s

/-- What is read of a member of a location. -/
def stepMember (l : Location) (s : Option Nat × Option Nat) (m : String × Json.Value) :
    Option (Option Nat × Option Nat) :=
  if m.1 = "line" then if s.1.isSome then none else some (some l.line, s.2)
  else if s.2.isSome then none else some (s.1, some l.column)

/-- The location of which the fields have been read. -/
def ofFields (s : Option Nat × Option Nat) : Except Fault Location := do
  return ⟨← Json.required s.1, ← Json.required s.2⟩

lemma readByName_eq : readByName = fun cs => do
    let (s, rest) ← Json.members readMember (none, none) cs
    return (← ofFields s, rest) := by
  funext cs
  simp only [readByName, ofFields, bind_assoc, pure_bind]
  rfl

/-- The reader of locations takes the text of a location for it, if it has a level. -/
lemma answers_read (s : Spacing) (level : Nat) {l : Location}
    (hl : l.line < wordLimit ∧ l.column < wordLimit) :
    (n : Nat) →
      Answers (read n) (l.toJson.text s level) (if 1 ≤ n then some l else none)
  | 0 => Json.answers_record_zero _ _ _
  | n + 1 => by
    have ha : ∀ m ∈ [("line", Json.Value.natural l.line), ("column", Json.Value.natural l.column)],
        AnswersMember s (level + 1) readMember l.stepMember m := by
      simp only [List.forall_mem_cons]
      refine ⟨fun st => ?_, fun st => ?_, by simp⟩
      · exact (Json.answers_word hl.1).field s st.1 fun x => (some x, st.2)
      · exact (Json.answers_word hl.2).field s st.2 fun x => (st.1, some x)
    exact Json.answers_record_succ s level n (fun _ => readByName) (fun _ => readInOrder)
      readByName_eq ha

lemma answers_readOptional (s : Spacing) (level n : Nat) {l : Location}
    (hl : l.line < wordLimit ∧ l.column < wordLimit) :
    Answers (readOptional n) (l.toJson.text s level)
      (if 1 ≤ n then some (some l) else none) := by
  intro pre rest hp hr
  -- the text starts with a brace, so it is not null
  have text : ∃ cs, l.toJson.text s level = '\x7b' :: cs := ⟨_, rfl⟩
  have read := (answers_read s level hl n).map_ite some [] rest Json.Blank.nil hr
  obtain ⟨cs, hcs⟩ := text
  rw [hcs] at read ⊢
  rw [readOptional, hp.skipBlanks_append, List.cons_append, Json.skipBlanks_cons rfl]
  exact read

end Location

namespace Term

/-- How a member of a term is read. -/
def readMember (n : Nat) (d : Draft) (k : String) : Json.Reader Draft :=
  if k = "location" then
    Json.field d.location (Location.readOptional n) fun l => { d with location := some l }
  else fun cs => do
    let (v, rest) ← Json.memberValue (Json.value n) cs
    return ({ d with members := (k, v) :: d.members }, rest)

/-- What is read of a member of a term with the given location. -/
def stepMember (location : Option Location) (n : Nat) (d : Draft) (m : String × Json.Value) :
    Option Draft :=
  if m.1 = "location" then
    if d.location.isSome then none
    else if 1 ≤ n then some { d with location := some location } else none
  else if m.2.depth ≤ n then some { d with members := (m.1, m.2.reread) :: d.members } else none

lemma answersMember_fields (s : Spacing) (level n : Nat) {t : Term} (h : t.Storable) :
    ∀ m ∈ t.fields ++ locationMember t.location,
      AnswersMember s level (readMember n) (stepMember t.location n) m := by
  have readable : ∀ m ∈ t.fields ++ locationMember t.location, m.2.Readable := by
    simpa [toJson_eq, Json.Value.Readable] using readable_toJson h
  intro m hm d
  rcases List.mem_append.1 hm with hf | hl
  · simp only [readMember, stepMember, if_neg (t.key_ne_location m hf)]
    exact ((Json.answers_value s n level (readable m hm)).memberValue s).map_ite
      fun v => { d with members := (m.1, v) :: d.members }
  · cases ht : t.location with
    | none => simp [ht, locationMember] at hl
    | some l =>
      obtain rfl : m = ("location", l.toJson) := by simpa [ht, locationMember] using hl
      exact (Location.answers_readOptional s level n (h.location_lt ht)).field_ite s d.location
        fun l => { d with location := some l }

lemma foldlM_stepMember (location : Option Location) (n : Nat) (d : Draft)
    {ms : List (String × Json.Value)} (hm : ∀ m ∈ ms, m.1 ≠ "location") :
    ms.foldlM (stepMember location n) d =
      if ∀ m ∈ ms, m.2.depth ≤ n then
        some { d with members := (Json.Value.rereadMembers ms).reverse ++ d.members }
      else none := by
  induction ms generalizing d with
  | nil => simp
  | cons m ms ih =>
    simp only [List.forall_mem_cons] at hm ⊢
    rw [List.foldlM_cons, stepMember, if_neg hm.1]
    by_cases hd : m.2.depth ≤ n
    · simp only [if_pos hd, Option.bind_eq_bind, Option.bind_some, ih _ hm.2]
      by_cases hs : ∀ m ∈ ms, m.2.depth ≤ n
      · rw [if_pos hs, if_pos ⟨hd, hs⟩]
        simp
      · rw [if_neg hs, if_neg fun h => hs h.2]
    · rw [if_neg hd, if_neg fun h => hd h.1]
      rfl

/-- The members of a term are kept as they were read, if the term nests no deeper than there are
levels. -/
lemma foldlM_fields (n : Nat) (t : Term) :
    (t.fields ++ locationMember t.location).foldlM (stepMember t.location n) {} =
      if t.toJson.depth ≤ n + 1 then
        some ⟨t.location.map some, (Json.Value.rereadMembers t.fields).reverse⟩
      else none := by
  rw [List.foldlM_append, foldlM_stepMember _ _ _ t.key_ne_location]
  simp only [depth_toJson_le]
  by_cases hf : ∀ m ∈ t.fields, m.2.depth ≤ n
  · simp only [if_pos hf, and_iff_right hf]
    cases t.location with
    | none => simp [locationMember]
    | some l => by_cases hn : 1 ≤ n <;> simp [locationMember, stepMember, hn]
  · rw [if_neg hf, if_neg fun h => hf h.1]
    rfl

/-- The reader of terms takes the text of a term for its reloaded form, if the term nests no deeper
than there are levels, and refuses it otherwise. -/
theorem answers_read (s : Spacing) (level : Nat) {n : Nat} (hn : n ≤ Json.maxNesting) {t : Term}
    (h : t.Storable) :
    Answers (read n) (t.toJson.text s level)
      (if t.toJson.depth ≤ n then some t.reloaded else none) := by
  have members : Answers (Json.objectOf readMember {} n) (t.toJson.text s level)
      (if t.toJson.depth ≤ n then
        some ⟨t.location.map some, (Json.Value.rereadMembers t.fields).reverse⟩ else none) := by
    cases n with
    | zero =>
      rw [if_neg (by simp [toJson_eq, Json.Value.depth]), toJson_eq]
      exact Json.answers_objectOf_zero _ _ _
    | succ n =>
      have read := Json.answers_objectOf_succ s level (answersMember_fields s (level + 1) n h) {}
      rwa [foldlM_fields, ← toJson_eq] at read
  have read := members.bind fun d =>
    ofMembers (ofValue Json.maxNesting) d.members.reverse (d.location.getD none)
  split_ifs at read ⊢ with hd
  · have location : (t.location.map some).getD none = t.location := by cases t.location <;> rfl
    have result := ofMembers_fields h fun u hu => ofValue_reread (h.child hu)
      (Nat.le_trans (Nat.le_of_lt (depth_child_lt hu)) (Nat.le_trans hd hn))
    rw [Option.bind_some, List.reverse_reverse, location, result] at read
    exact read
  · exact read

end Term

end ScriptGraph
