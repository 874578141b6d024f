import ScriptGraph.Proofs.Json.Containers

/-!
# Reading values back

The reader of any value takes a text for the value that was written if it has enough levels for it,
and refuses it otherwise (`answers_value`). Only the numbers of a value can be read as other ones
than were written.
-/

namespace ScriptGraph.Json

/-! ### Values that can be read -/

namespace Value

mutual

/-- Whether each scalar of a value is read from its text. -/
def Readable : Value → Prop
  | natural n => n ≤ wordMax
  | number x => ∃ v, scalar? (renderNumber x).toList = some (.ok (v, []))
  | array vs => ReadableAll vs
  | object ms => ReadableMembers ms
  | _ => True

/-- Whether each scalar of some elements is read from its text. -/
def ReadableAll : List Value → Prop
  | [] => True
  | v :: vs => Readable v ∧ ReadableAll vs

/-- Whether each scalar of some members is read from its text. -/
def ReadableMembers : List (String × Value) → Prop
  | [] => True
  | (_, v) :: ms => Readable v ∧ ReadableMembers ms

end

mutual

/-- What a value is read as: its numbers are those that their texts denote. -/
def reread : Value → Value
  | number x =>
    match scalar? (renderNumber x).toList with
    | some (.ok (v, _)) => v
    | _ => .null
  | array vs => array (rereadAll vs)
  | object ms => object (rereadMembers ms)
  | v => v

/-- What some elements are read as. -/
def rereadAll : List Value → List Value
  | [] => []
  | v :: vs => reread v :: rereadAll vs

/-- What some members are read as. -/
def rereadMembers : List (String × Value) → List (String × Value)
  | [] => []
  | (k, v) :: ms => (k, reread v) :: rereadMembers ms

end

@[simp] lemma readableAll_iff {vs : List Value} : ReadableAll vs ↔ ∀ v ∈ vs, v.Readable := by
  induction vs with
  | nil => simp [ReadableAll]
  | cons v vs ih => simp [ReadableAll, ih]

@[simp] lemma readableMembers_iff {ms : List (String × Value)} :
    ReadableMembers ms ↔ ∀ m ∈ ms, m.2.Readable := by
  induction ms with
  | nil => simp [ReadableMembers]
  | cons m ms ih => simp [ReadableMembers, ih]

@[simp] lemma rereadAll_eq_map (vs : List Value) : rereadAll vs = vs.map reread := by
  induction vs with
  | nil => rfl
  | cons v vs ih => simp [rereadAll, ih]

@[simp] lemma rereadMembers_eq_map (ms : List (String × Value)) :
    rereadMembers ms = ms.map fun m => (m.1, m.2.reread) := by
  induction ms with
  | nil => rfl
  | cons m ms ih => simp [rereadMembers, ih]

/-- The scalar that the text of a value is, if the value is one. -/
lemma scalar?_text (s : Spacing) (level : Nat) {v : Value} (h : v.Readable) (hd : v.depth = 0) :
    scalar? (v.text s level) = some (.ok (v.reread, [])) := by
  cases v with
  | null => rfl
  | bool b => cases b <;> rfl
  | natural n => simpa [text, render, reread] using scalar?_natural h
  | number x =>
    obtain ⟨u, hu⟩ := h
    simp [text, render, reread, hu]
  | string t => simpa [text, render, reread] using scalar?_renderString t
  | array vs => simp [depth] at hd
  | object ms => simp [depth] at hd

lemma solid_text (s : Spacing) (level : Nat) {v : Value} (h : v.Readable) :
    Solid (v.text s level) := by
  rcases Nat.eq_zero_or_pos v.depth with hd | hd
  · exact head_of_scalar? (scalar?_text s level h hd)
  · cases v with
    | array vs => exact ⟨'[', _, rfl, rfl, by decide⟩
    | object ms => exact ⟨'\x7b', _, rfl, rfl, by decide⟩
    | _ => simp [depth] at hd

end Value

/-! ### Scalars -/

lemma value_of_scalar? {cs : List Char} {r : Except Fault (Value × List Char)}
    (h : scalar? (skipBlanks cs) = some r) (n : Nat) : value n cs = r := by
  unfold value
  simp [h]

lemma answers_value_of_scalar? {t : List Char} {u : Value} (h : scalar? t = some (.ok (u, [])))
    (n : Nat) : Answers (value n) t (some u) := by
  intro pre rest hp hr
  obtain ⟨c, cs, rfl, hb, -⟩ := head_of_scalar? h
  have hs := hr.scalar?_append h
  rw [List.cons_append] at hs ⊢
  rw [value_of_scalar? (by rw [hp.skipBlanks_append, skipBlanks_cons hb]; exact hs)]
  rfl

/-- A value that is no container has been read as a scalar. -/
lemma scalar?_of_value {n : Nat} {cs left : List Char} {v : Value} (h : value n cs = .ok (v, left))
    (hd : v.depth = 0) : scalar? (skipBlanks cs) = some (.ok (v, left)) := by
  rw [value.eq_def] at h
  dsimp only at h
  split at h
  · next hs => rw [hs, h]
  · split at h
    · simp at h
    · obtain ⟨⟨vs, r⟩, -, h⟩ := bind_eq_ok.1 h
      obtain ⟨rfl, -⟩ : Value.array vs = v ∧ r = left := by simpa using h
      simp [Value.depth] at hd
    · obtain ⟨⟨ms, r⟩, -, h⟩ := bind_eq_ok.1 h
      obtain ⟨rfl, -⟩ : Value.object ms.reverse = v ∧ r = left := by simpa using h
      simp [Value.depth] at hd
    · simp at h

/-! ### Containers -/

/-- All parts have to be answered. -/
lemma mapM_ite {p : α → Prop} [DecidablePred p] (f : α → β) (xs : List α) :
    (xs.mapM fun x => if p x then some (f x) else none) =
      if ∀ x ∈ xs, p x then some (xs.map f) else none := by
  induction xs with
  | nil => simp
  | cons x xs ih =>
    simp only [List.mapM_cons, ih, List.forall_mem_cons]
    split_ifs <;> simp_all

lemma foldlM_ite {p : α → Prop} [DecidablePred p] (f : α → β) (xs : List α) (ys : List β) :
    (xs.foldlM (fun ys x => if p x then some (f x :: ys) else none) ys) =
      if ∀ x ∈ xs, p x then some ((xs.map f).reverse ++ ys) else none := by
  induction xs generalizing ys with
  | nil => simp
  | cons x xs ih => by_cases hx : p x <;> by_cases hs : ∀ x ∈ xs, p x <;> simp [ih, hx, hs]

lemma value_zero {c : Char} (hc : c = '[' ∨ c = '\x7b') {pre : List Char} (hp : Blank pre)
    (cs : List Char) : value 0 (pre ++ c :: cs) = .error .malformed := by
  rw [value.eq_def]
  rcases hc with rfl | rfl
  · simp [hp.skipBlanks_append, skipBlanks_cons (c := '[') rfl, scalar?]
  · simp [hp.skipBlanks_append, skipBlanks_cons (c := '\x7b') rfl, scalar?]

lemma value_array {pre : List Char} (hp : Blank pre) (n : Nat) (cs : List Char) :
    value (n + 1) (pre ++ '[' :: cs) =
      (do let (vs, rest) ← elements (value n) cs; return (.array vs, rest)) := by
  rw [value.eq_def]
  simp [hp.skipBlanks_append, skipBlanks_cons (c := '[') rfl, scalar?]

/-- A member of an object is put in front of those before it. -/
def consMember (n : Nat) (ms : List (String × Value)) (k : String) :
    Reader (List (String × Value)) := fun cs => do
  let (v, rest) ← memberValue (value n) cs
  return ((k, v) :: ms, rest)

lemma value_object {pre : List Char} (hp : Blank pre) (n : Nat) (cs : List Char) :
    value (n + 1) (pre ++ '\x7b' :: cs) =
      (do let (ms, rest) ← members (consMember n) [] cs; return (.object ms.reverse, rest)) := by
  rw [value.eq_def]
  have hs : scalar? ('\x7b' :: cs) = none := by simp [scalar?]
  simp only [hp.skipBlanks_append, skipBlanks_cons (c := '\x7b') rfl, hs]
  unfold consMember memberValue
  simp only [bind_assoc]

/-- The reader of any value takes a text for the value that was written, if it nests no deeper than
there are levels, and refuses it otherwise. -/
theorem answers_value (s : Spacing) (n level : Nat) {v : Value} (h : v.Readable) :
    Answers (value n) (v.text s level) (if v.depth ≤ n then some v.reread else none) := by
  induction n generalizing v level with
  | zero =>
    cases v with
    | array vs | object ms =>
      intro pre rest hp _
      rw [Value.text, List.cons_append, value_zero (by simp) hp]
      simp [Value.depth]
    | _ => exact answers_value_of_scalar? (Value.scalar?_text s level h rfl) 0
  | succ n ih =>
    cases v with
    | array vs =>
      intro pre rest hp _
      have hv : ∀ v ∈ vs, v.Readable := by simpa [Value.Readable] using h
      have ha := elements_after s level (fun v hm => Value.solid_text s (level + 1) (hv v hm))
        (fun v hm => ih (level + 1) (hv v hm)) rest
      rw [Value.text, List.cons_append, value_array hp, toOption_bind, Value.textAll_eq_map, ha,
        mapM_ite]
      simp only [Value.depth_array_le, Value.reread, Value.rereadAll_eq_map]
      split_ifs <;> rfl
    | object ms =>
      intro pre rest hp _
      have hm : ∀ m ∈ ms, m.2.Readable := by simpa [Value.Readable] using h
      have ha : ∀ m ∈ ms, AnswersMember s (level + 1) (consMember n)
          (fun ms m => if m.2.depth ≤ n then some ((m.1, m.2.reread) :: ms) else none) m :=
        fun m hmem st =>
          ((ih (level + 1) (hm m hmem)).memberValue s).map_ite fun v => (m.1, v) :: st
      rw [Value.text, List.cons_append, value_object hp, toOption_bind,
        members_after s level ha, foldlM_ite]
      simp only [Value.depth_object_le, Value.reread, Value.rereadMembers_eq_map]
      split_ifs <;> simp
    | _ => exact answers_value_of_scalar? (Value.scalar?_text s level h rfl) (n + 1)

/-- An array of parts that are each taken if they have enough levels is taken if it has enough. -/
lemma answers_arrayOf {ι : Type} (s : Spacing) (n level : Nat) {item : Nat → Reader α}
    (toJson : ι → Value) (result : ι → α) {xs : List ι} (hx : ∀ x ∈ xs, (toJson x).Readable)
    (ha : ∀ m < n, ∀ x ∈ xs, Answers (item m) ((toJson x).text s (level + 1))
      (if (toJson x).depth ≤ m then some (result x) else none)) :
    Answers (arrayOf item n) ((Value.array (xs.map toJson)).text s level)
      (if (Value.array (xs.map toJson)).depth ≤ n then some (xs.map result) else none) := by
  cases n with
  | zero =>
    rw [if_neg (by simp [Value.depth])]
    exact answers_arrayOf_zero item _
  | succ n =>
    have read := answers_arrayOf_succ s level
      (fun x h => Value.solid_text s (level + 1) (hx x h)) (ha n (Nat.lt_succ_self n))
    simp only [mapM_ite] at read
    simp only [Value.depth_array_le, List.forall_mem_map, Value.text, Value.textAll_eq_map,
      List.map_map]
    exact read

end ScriptGraph.Json
