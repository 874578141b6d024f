import ScriptGraph.Proofs.Json.Scalars

/-!
# Reading containers back

`Answers r t x` says what a reader makes of a text, wherever it stands in a document. The readers of
arrays and objects answer the text of a container with what the readers of its parts answer, one
after another (`elements_after`, `members_after`), and take one level for themselves.
-/

namespace ScriptGraph.Json

/-! ### Answers -/

/-- Whether a reader takes a text for a value, after any blanks and before all that does not prolong
the text, or refuses the text if there is no value. -/
def Answers (r : Reader α) (t : List Char) (x : Option α) : Prop :=
  ∀ pre rest, Blank pre → Delimited rest → (r (pre ++ (t ++ rest))).toOption = x.map (·, rest)

lemma toOption_bind (x : Except Fault α) (f : α → Except Fault β) :
    (x >>= f).toOption = x.toOption.bind fun a => (f a).toOption := by
  cases x <;> rfl

@[simp] lemma toOption_pure (a : α) : (pure a : Except Fault α).toOption = some a := rfl

@[simp] lemma toOption_ok (a : α) : (.ok a : Except Fault α).toOption = some a := rfl

@[simp] lemma toOption_error (e : Fault) : (.error e : Except Fault α).toOption = none := rfl

lemma Answers.bind {r : Reader α} {t : List Char} {x : Option α} (h : Answers r t x)
    (f : α → Except Fault β) :
    Answers (fun cs => do let (a, rest) ← r cs; return (← f a, rest)) t
      (x.bind fun a => (f a).toOption) := by
  intro pre rest hp hr
  simp only [toOption_bind, h pre rest hp hr]
  cases x with
  | none => rfl
  | some a => cases hf : f a <;> simp [hf]

lemma Answers.map {r : Reader α} {t : List Char} {x : Option α} (h : Answers r t x) (f : α → β) :
    Answers (fun cs => do let (a, rest) ← r cs; return (f a, rest)) t (x.map f) := by
  intro pre rest hp hr
  simp only [toOption_bind, h pre rest hp hr]
  cases x <;> rfl

lemma Answers.map_ite {r : Reader α} {t : List Char} {p : Prop} [Decidable p] {a : α}
    (h : Answers r t (if p then some a else none)) (f : α → β) :
    Answers (fun cs => do let (a, rest) ← r cs; return (f a, rest)) t
      (if p then some (f a) else none) := by
  have mapped := h.map f
  rwa [apply_ite (Option.map f)] at mapped

/-- The value of a member stands after a colon and the gap. -/
lemma Answers.memberValue {r : Reader α} {t : List Char} {x : Option α} (h : Answers r t x)
    (s : Spacing) : Answers (memberValue r) (':' :: (s.gap ++ t)) x := by
  intro pre rest hp hr
  have hc : colon (pre ++ (':' :: (s.gap ++ t) ++ rest)) = .ok (s.gap ++ (t ++ rest)) := by
    simp [colon, hp.skipBlanks_append, skipBlanks_cons (c := ':') rfl]
  rw [Json.memberValue, hc]
  exact h _ _ s.gap_blank hr

lemma Answers.field {r : Reader α} {t : List Char} {x : Option α} (h : Answers r t x) (s : Spacing)
    (old : Option α) (store : α → σ) :
    Answers (field old r store) (':' :: (s.gap ++ t))
      (if old.isSome then none else x.map store) := by
  cases old with
  | some _ => intro pre rest _ _; rfl
  | none => exact (h.memberValue s).map store

lemma Answers.field_ite {r : Reader α} {t : List Char} {p : Prop} [Decidable p] {a : α}
    (h : Answers r t (if p then some a else none)) (s : Spacing) (old : Option α) (store : α → σ) :
    Answers (Json.field old r store) (':' :: (s.gap ++ t))
      (if old.isSome then none else if p then some (store a) else none) := by
  have read := h.field s old store
  rwa [apply_ite (Option.map store)] at read

/-- A document is a text that the reader takes. -/
lemma Answers.toOption_document {r : Reader α} {text : String} {x : Option α}
    (h : Answers r text.toList x) : (document r text).toOption = x := by
  have read := h [] [] Blank.nil Delimited.nil
  rw [List.nil_append, List.append_nil] at read
  rw [document, toOption_bind, read]
  cases x <;> rfl

/-! ### Words -/

lemma answers_word {n : Nat} (h : n < wordLimit) : Answers word (toString n).toList (some n) := by
  intro pre rest hp hr
  have hn : scalar? (toString n).toList = some (.ok (.natural n, [])) :=
    scalar?_natural (le_wordMax_of_lt h)
  obtain ⟨c, cs, ht, hb, -⟩ := head_of_scalar? hn
  have hs := hr.scalar?_append hn
  rw [ht, List.cons_append] at hs ⊢
  rw [word, hp.skipBlanks_append, skipBlanks_cons hb]
  simp [hs, h, bind, Except.bind]

/-! ### Arrays -/

/-- Whether a text can be an element of an array. -/
def Solid (t : List Char) : Prop := ∃ c cs, t = c :: cs ∧ isBlank c = false ∧ c ≠ ']'

lemma Solid.ne_nil {t : List Char} (h : Solid t) : t ≠ [] := by
  obtain ⟨c, cs, rfl, -, -⟩ := h
  exact List.cons_ne_nil c cs

lemma Solid.nextElement_first {t : List Char} (h : Solid t) {pre : List Char} (hp : Blank pre)
    (rest : List Char) : nextElement true (pre ++ (t ++ rest)) = .ok (some (t ++ rest)) := by
  obtain ⟨c, cs, rfl, hb, hc⟩ := h
  simp [nextElement, hp.skipBlanks_append, skipBlanks_cons hb]

lemma Solid.nextElement_comma {t : List Char} (h : Solid t) {pre : List Char} (hp : Blank pre)
    (rest : List Char) :
    nextElement false (',' :: (pre ++ (t ++ rest))) = .ok (some (t ++ rest)) := by
  obtain ⟨c, cs, rfl, hb, hc⟩ := h
  simp [nextElement, hp.skipBlanks_append, skipBlanks_cons (c := ',') rfl, skipBlanks_cons hb, hc]

lemma nextElement_close (first : Bool) {pre : List Char} (hp : Blank pre) (rest : List Char) :
    nextElement first (pre ++ ']' :: rest) = .ok none := by
  simp [nextElement, hp.skipBlanks_append, skipBlanks_cons (c := ']') rfl]

lemma closeArray_close {pre : List Char} (hp : Blank pre) (rest : List Char) :
    closeArray (pre ++ ']' :: rest) = .ok rest := by
  simp [closeArray, hp.skipBlanks_append, skipBlanks_cons (c := ']') rfl]

/-- What comes after a part of a container does not prolong it. -/
lemma Spacing.delimited_more (s : Spacing) (level : Nat) {close : Char}
    (hc : close = ']' ∨ close = '\x7d') (ts : List (List Char)) (rest : List Char) :
    Delimited (s.more level close ts ++ rest) := by
  intro c h
  cases ts with
  | cons t ts =>
    obtain rfl : ',' = c := by simpa using h
    decide
  | nil =>
    cases hp : s.pad level with
    | nil =>
      obtain rfl : close = c := by simpa [hp] using h
      rcases hc with rfl | rfl <;> decide
    | cons b bs =>
      obtain rfl : b = c := by simpa [hp] using h
      have hb : isBlank b = true := s.pad_blank level b (hp ▸ List.mem_cons_self)
      simp only [isBlank, Bool.or_eq_true, beq_iff_eq] at hb
      rcases hb with ((rfl | rfl) | rfl) | rfl <;> decide

section Elements

variable {item : Reader α} {cs next : List Char}

lemma elementsWithin_none {first : Bool} (h : nextElement first cs = .ok none) (b : Char)
    (bound : List Char) :
    (elementsWithin item (b :: bound) first cs).toOption =
      (closeArray cs).toOption.map ([], ·) := by
  rw [elementsWithin, h]
  cases closeArray cs <;> rfl

lemma elementsWithin_some {first : Bool} (h : nextElement first cs = .ok (some next)) (b : Char)
    (bound : List Char) :
    (elementsWithin item (b :: bound) first cs).toOption =
      (item next).toOption.bind fun (x, cs) =>
        (elementsWithin item bound false cs).toOption.map fun (xs, cs) => (x :: xs, cs) := by
  rw [elementsWithin, h]
  simp only [toOption_bind, toOption_ok, Option.bind_some]
  cases (item next).toOption with
  | none => rfl
  | some x =>
    simp only [Option.bind_some]
    cases (elementsWithin item bound false x.2).toOption <;> rfl

variable {ι : Type} (s : Spacing) (level : Nat) {text : ι → List Char} {answer : ι → Option α}

/-- One element is read, then the further ones. -/
lemma elementsWithin_cons {first : Bool} {x : ι} {xs : List ι} {rest bound : List Char}
    (hn : nextElement first cs =
      .ok (some (text x ++ (s.more level ']' (xs.map text) ++ rest))))
    (ha : Answers item (text x) (answer x))
    (tail : (elementsWithin item bound false (s.more level ']' (xs.map text) ++ rest)).toOption =
      (xs.mapM answer).map (·, rest)) (b : Char) :
    (elementsWithin item (b :: bound) first cs).toOption =
      ((x :: xs).mapM answer).map (·, rest) := by
  have head := ha [] _ Blank.nil (s.delimited_more level (.inl rfl) (xs.map text) rest)
  rw [List.nil_append] at head
  rw [elementsWithin_some hn, head]
  cases hy : answer x with
  | none => simp [hy]
  | some y =>
    simp only [Option.map_some, Option.bind_some, tail, List.mapM_cons, hy]
    cases xs.mapM answer <;> rfl

/-- The further elements of an array are read in turn, as long as the bound allows. -/
lemma elementsWithin_more {xs : List ι} (hx : ∀ x ∈ xs, Solid (text x))
    (ha : ∀ x ∈ xs, Answers item (text x) (answer x)) {bound : List Char}
    (hb : xs.length < bound.length) (rest : List Char) :
    (elementsWithin item bound false (s.more level ']' (xs.map text) ++ rest)).toOption =
      (xs.mapM answer).map (·, rest) := by
  induction xs generalizing bound with
  | nil =>
    obtain ⟨b, bound, rfl⟩ := List.exists_cons_of_length_pos hb
    have hp := s.pad_blank level
    have hc : s.more level ']' ([].map text) ++ rest = s.pad level ++ ']' :: rest := by simp
    rw [hc, elementsWithin_none (nextElement_close _ hp rest), closeArray_close hp]
    rfl
  | cons x xs ih =>
    obtain ⟨b, bound, rfl⟩ := List.exists_cons_of_length_pos (Nat.zero_lt_of_lt hb)
    simp only [List.forall_mem_cons] at hx ha
    have hn := hx.1.nextElement_comma (s.pad_blank (level + 1))
      (s.more level ']' (xs.map text) ++ rest)
    refine elementsWithin_cons s level ?_ ha.1 (ih hx.2 ha.2 (Nat.lt_of_succ_lt_succ hb)) b
    simpa using hn

lemma elementsWithin_after {xs : List ι} (hx : ∀ x ∈ xs, Solid (text x))
    (ha : ∀ x ∈ xs, Answers item (text x) (answer x)) {bound : List Char}
    (hb : xs.length < bound.length) (rest : List Char) :
    (elementsWithin item bound true (s.after level ']' (xs.map text) ++ rest)).toOption =
      (xs.mapM answer).map (·, rest) := by
  cases xs with
  | nil =>
    obtain ⟨b, bound, rfl⟩ := List.exists_cons_of_length_pos hb
    exact (elementsWithin_none (nextElement_close true Blank.nil rest) b bound).trans rfl
  | cons x xs =>
    obtain ⟨b, bound, rfl⟩ := List.exists_cons_of_length_pos (Nat.zero_lt_of_lt hb)
    simp only [List.forall_mem_cons] at hx ha
    have hn := hx.1.nextElement_first (s.pad_blank (level + 1))
      (s.more level ']' (xs.map text) ++ rest)
    refine elementsWithin_cons s level ?_ ha.1
      (elementsWithin_more s level hx.2 ha.2 (Nat.lt_of_succ_lt_succ hb) rest) b
    simpa [Spacing.after] using hn

/-- The text of an array after its opening bracket is answered element by element. -/
lemma elements_after {xs : List ι} (hx : ∀ x ∈ xs, Solid (text x))
    (ha : ∀ x ∈ xs, Answers item (text x) (answer x)) (rest : List Char) :
    (elements item (s.after level ']' (xs.map text) ++ rest)).toOption =
      (xs.mapM answer).map (·, rest) := by
  refine elementsWithin_after s level hx ha ?_ rest
  have hl := s.length_lt_after level ']' (xs.map text) (by simpa using fun x h => (hx x h).ne_nil)
  simp only [List.length_map, List.length_append] at hl ⊢
  omega

end Elements

lemma answers_arrayOf_zero (item : Nat → Reader α) (t : List Char) :
    Answers (arrayOf item 0) ('[' :: t) none := by
  intro pre rest hp _
  simp [arrayOf, hp.skipBlanks_append, skipBlanks_cons (c := '[') rfl]

/-- An array takes one level for itself. -/
lemma answers_arrayOf_succ {ι : Type} (s : Spacing) (level : Nat) {n : Nat} {item : Nat → Reader α}
    {text : ι → List Char} {answer : ι → Option α} {xs : List ι} (hx : ∀ x ∈ xs, Solid (text x))
    (ha : ∀ x ∈ xs, Answers (item n) (text x) (answer x)) :
    Answers (arrayOf item (n + 1)) ('[' :: s.after level ']' (xs.map text)) (xs.mapM answer) := by
  intro pre rest hp _
  simp [arrayOf, hp.skipBlanks_append, skipBlanks_cons (c := '[') rfl, elements_after s level hx ha]

/-! ### Objects -/

section Members

variable (s : Spacing) (level : Nat) {pre : List Char} (hp : Blank pre)

include hp

lemma nextKey_close (first : Bool) (rest : List Char) :
    nextKey first (pre ++ '\x7d' :: rest) = .ok (none, rest) := by
  simp [nextKey, hp.skipBlanks_append, skipBlanks_cons (c := '\x7d') rfl, pure, Except.pure]

lemma key_member (k : String) (t rest : List Char) :
    key (pre ++ (s.member k t ++ rest)) = .ok (k, ':' :: (s.gap ++ (t ++ rest))) := by
  have body := stringBody_renderString k (':' :: (s.gap ++ (t ++ rest)))
  rw [toList_renderString, List.tail_cons] at body
  rw [key, hp.skipBlanks_append, Spacing.member, toList_renderString]
  simpa [skipBlanks_cons (c := '"') rfl] using body

lemma nextKey_first (k : String) (t rest : List Char) :
    nextKey true (pre ++ (s.member k t ++ rest)) =
      .ok (some k, ':' :: (s.gap ++ (t ++ rest))) := by
  have hk := key_member s Blank.nil k t rest
  obtain ⟨cs, hcs⟩ : ∃ cs, s.member k t = '"' :: cs := by
    simp [Spacing.member, toList_renderString]
  rw [hcs, List.nil_append, List.cons_append] at hk
  rw [nextKey, hcs, hp.skipBlanks_append, List.cons_append, skipBlanks_cons rfl]
  simp [hk, bind, Except.bind, pure, Except.pure]

lemma nextKey_comma (k : String) (t rest : List Char) :
    nextKey false (',' :: (pre ++ (s.member k t ++ rest))) =
      .ok (some k, ':' :: (s.gap ++ (t ++ rest))) := by
  rw [nextKey, skipBlanks_cons rfl]
  simp [key_member s hp, bind, Except.bind, pure, Except.pure]

omit hp

/-- Whether a reader of members answers a member as `step` says, whatever it has read before. -/
def AnswersMember (member : σ → String → Reader σ) (step : σ → String × Value → Option σ)
    (m : String × Value) : Prop :=
  ∀ st, Answers (member st m.1) (':' :: (s.gap ++ m.2.text s level)) (step st m)

variable {member : σ → String → Reader σ} {step : σ → String × Value → Option σ}
  {cs next : List Char} {st : σ}

lemma membersWithin_none {first : Bool} (h : nextKey first cs = .ok (none, next)) (b : Char)
    (bound : List Char) :
    (membersWithin member (b :: bound) first st cs).toOption = some (st, next) := by
  rw [membersWithin, h]
  rfl

lemma membersWithin_some {first : Bool} {k : String} (h : nextKey first cs = .ok (some k, next))
    (b : Char) (bound : List Char) :
    (membersWithin member (b :: bound) first st cs).toOption =
      (member st k next).toOption.bind fun (st, cs) =>
        (membersWithin member bound false st cs).toOption := by
  rw [membersWithin, h]
  simp only [toOption_bind, toOption_ok, Option.bind_some]

/-- One member is read, then the further ones. -/
lemma membersWithin_cons {first : Bool} {m : String × Value} {ms : List (String × Value)}
    {rest bound : List Char}
    (hn : nextKey first cs = .ok (some m.1, ':' :: (s.gap ++ (m.2.text s (level + 1) ++
      (s.more level '\x7d' (Value.textMembers s (level + 1) ms) ++ rest)))))
    (ha : AnswersMember s (level + 1) member step m)
    (tail : ∀ st, (membersWithin member bound false st
      (s.more level '\x7d' (Value.textMembers s (level + 1) ms) ++ rest)).toOption =
      (ms.foldlM step st).map (·, rest)) (b : Char) :
    (membersWithin member (b :: bound) first st cs).toOption =
      ((m :: ms).foldlM step st).map (·, rest) := by
  have head := ha st [] _ Blank.nil
    (s.delimited_more level (.inr rfl) (Value.textMembers s (level + 1) ms) rest)
  simp only [List.nil_append, List.cons_append, List.append_assoc] at head
  rw [membersWithin_some hn, head, List.foldlM_cons]
  cases step st m with
  | none => rfl
  | some st => exact tail st

/-- The further members of an object are read in turn, as long as the bound allows. -/
lemma membersWithin_more {ms : List (String × Value)}
    (ha : ∀ m ∈ ms, AnswersMember s (level + 1) member step m) {bound : List Char}
    (hb : ms.length < bound.length) (st : σ) (rest : List Char) :
    (membersWithin member bound false st
      (s.more level '\x7d' (Value.textMembers s (level + 1) ms) ++ rest)).toOption =
      (ms.foldlM step st).map (·, rest) := by
  induction ms generalizing bound st with
  | nil =>
    obtain ⟨b, bound, rfl⟩ := List.exists_cons_of_length_pos hb
    have hn : nextKey false (s.more level '\x7d' [] ++ rest) = .ok (none, rest) := by
      simpa using nextKey_close (s.pad_blank level) false rest
    exact (membersWithin_none hn b bound).trans rfl
  | cons m ms ih =>
    obtain ⟨b, bound, rfl⟩ := List.exists_cons_of_length_pos (Nat.zero_lt_of_lt hb)
    simp only [List.forall_mem_cons] at ha
    have hn := nextKey_comma s (s.pad_blank (level + 1)) m.1 (m.2.text s (level + 1))
      (s.more level '\x7d' (Value.textMembers s (level + 1) ms) ++ rest)
    refine membersWithin_cons s level ?_ ha.1
      (fun st => ih ha.2 (Nat.lt_of_succ_lt_succ hb) st) b
    simpa using hn

lemma membersWithin_after {ms : List (String × Value)}
    (ha : ∀ m ∈ ms, AnswersMember s (level + 1) member step m) {bound : List Char}
    (hb : ms.length < bound.length) (st : σ) (rest : List Char) :
    (membersWithin member bound true st
      (s.after level '\x7d' (Value.textMembers s (level + 1) ms) ++ rest)).toOption =
      (ms.foldlM step st).map (·, rest) := by
  cases ms with
  | nil =>
    obtain ⟨b, bound, rfl⟩ := List.exists_cons_of_length_pos hb
    exact (membersWithin_none (nextKey_close Blank.nil true rest) b bound).trans rfl
  | cons m ms =>
    obtain ⟨b, bound, rfl⟩ := List.exists_cons_of_length_pos (Nat.zero_lt_of_lt hb)
    simp only [List.forall_mem_cons] at ha
    have hn := nextKey_first s (s.pad_blank (level + 1)) m.1 (m.2.text s (level + 1))
      (s.more level '\x7d' (Value.textMembers s (level + 1) ms) ++ rest)
    refine membersWithin_cons s level ?_ ha.1
      (fun st => membersWithin_more s level ha.2 (Nat.lt_of_succ_lt_succ hb) st rest) b
    simpa [Spacing.after] using hn

/-- The text of an object after its opening brace is answered member by member. -/
lemma members_after {ms : List (String × Value)}
    (ha : ∀ m ∈ ms, AnswersMember s (level + 1) member step m) (st : σ) (rest : List Char) :
    (members member st
      (s.after level '\x7d' (Value.textMembers s (level + 1) ms) ++ rest)).toOption =
      (ms.foldlM step st).map (·, rest) := by
  refine membersWithin_after s level ha ?_ st rest
  have ne : ∀ t ∈ Value.textMembers s (level + 1) ms, t ≠ [] := by
    rw [Value.textMembers_eq_map, List.forall_mem_map]
    exact fun m _ => s.member_ne_nil _ _
  have hl := s.length_lt_after level '\x7d' _ ne
  simp only [Value.textMembers_eq_map, List.length_map, List.length_append] at hl ⊢
  omega

end Members

lemma answers_objectOf_zero (member : Nat → σ → String → Reader σ) (st : σ) (t : List Char) :
    Answers (objectOf member st 0) ('\x7b' :: t) none := by
  intro pre rest hp _
  simp [objectOf, hp.skipBlanks_append, skipBlanks_cons (c := '\x7b') rfl]

/-- An object takes one level for itself. -/
lemma answers_objectOf_succ (s : Spacing) (level : Nat) {n : Nat}
    {member : Nat → σ → String → Reader σ} {step : σ → String × Value → Option σ}
    {ms : List (String × Value)}
    (ha : ∀ m ∈ ms, AnswersMember s (level + 1) (member n) step m) (st : σ) :
    Answers (objectOf member st (n + 1)) (Value.text s level (.object ms)) (ms.foldlM step st) := by
  intro pre rest hp _
  simp only [objectOf, Value.text, List.cons_append, hp.skipBlanks_append,
    skipBlanks_cons (c := '\x7b') rfl]
  exact members_after s level ha st rest

lemma answers_record_zero (byName inOrder : Nat → Reader α) (t : List Char) :
    Answers (record 0 byName inOrder) ('\x7b' :: t) none := by
  intro pre rest hp _
  simp [record, hp.skipBlanks_append, skipBlanks_cons (c := '\x7b') rfl]

/-- A record that is written by the names of its fields is made of what has been read of them. -/
lemma answers_record_succ (s : Spacing) (level n : Nat) (byName inOrder : Nat → Reader α)
    {member : σ → String → Reader σ} {st : σ} {result : σ → Except Fault α}
    (hn : byName n = fun cs => do
      let (st, rest) ← members member st cs
      return (← result st, rest))
    {step : σ → String × Value → Option σ} {ms : List (String × Value)}
    (ha : ∀ m ∈ ms, AnswersMember s (level + 1) member step m) :
    Answers (record (n + 1) byName inOrder) (Value.text s level (.object ms))
      ((ms.foldlM step st).bind fun st => (result st).toOption) := by
  intro pre rest hp _
  simp only [record, Value.text, List.cons_append, hp.skipBlanks_append,
    skipBlanks_cons (c := '\x7b') rfl, hn, toOption_bind, members_after s level ha]
  cases ms.foldlM step st with
  | none => rfl
  | some st => cases hr : result st <;> simp [hr]

end ScriptGraph.Json
