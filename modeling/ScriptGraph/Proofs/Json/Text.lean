import Mathlib.Tactic.Lemma
import ScriptGraph.Json.Reader

/-!
# Texts of values

The two written forms of a value differ only in the blanks between its parts. A `Spacing` says which
blanks stand where, and `Value.text` writes a value with any of them, so that whatever is shown of
`Value.text` holds of both forms. The depth of a value is how deep the arrays and objects of its
text nest.
-/

namespace ScriptGraph.Json

/-! ### Blanks -/

/-- Whether a character may stand between the parts of a document. -/
def isBlank (c : Char) : Bool := c == ' ' || c == '\n' || c == '\t' || c == '\r'

/-- Whether a text has only blanks. -/
def Blank (cs : List Char) : Prop := ∀ c ∈ cs, isBlank c = true

lemma Blank.nil : Blank [] := by simp [Blank]

lemma Blank.skipBlanks_append {pre : List Char} (h : Blank pre) (cs : List Char) :
    skipBlanks (pre ++ cs) = skipBlanks cs :=
  List.dropWhile_append_of_pos h

lemma skipBlanks_cons {c : Char} (h : isBlank c = false) (cs : List Char) :
    skipBlanks (c :: cs) = c :: cs :=
  List.dropWhile_cons_of_neg (by simpa [isBlank] using h)

/-! ### Spacings -/

/-- The blanks of a written form. -/
structure Spacing where
  /-- What stands before an element or a member at a level, and before the bracket that closes the
  level beneath. -/
  pad : Nat → List Char
  /-- What stands between a colon and the value of a member. -/
  gap : List Char
  pad_blank : ∀ level, Blank (pad level)
  gap_blank : Blank gap

namespace Spacing

/-- No blanks at all. -/
def compact : Spacing where
  pad _ := []
  gap := []
  pad_blank _ := Blank.nil
  gap_blank := Blank.nil

/-- Each element and each member on a line of its own. -/
def indented : Spacing where
  pad level := (Value.newLine level).toList
  gap := [' ']
  pad_blank level := by
    intro c hc
    simp only [Value.newLine, String.toList_append, String.toList_ofList, List.mem_append,
      List.mem_replicate] at hc
    rcases hc with hc | ⟨-, rfl⟩
    · obtain rfl : c = '\n' := by simpa using hc
      rfl
    · rfl
  gap_blank := by simp [Blank, isBlank]

variable (s : Spacing) (level : Nat) (close : Char)

/-- The text of a container after one of its parts: the further parts and the closing bracket. -/
def more (ts : List (List Char)) : List Char :=
  ts.flatMap (fun t => ',' :: (s.pad (level + 1) ++ t)) ++ (s.pad level ++ [close])

/-- The text of a container after its opening bracket. An empty one has no blanks. -/
def after : List (List Char) → List Char
  | [] => [close]
  | t :: ts => s.pad (level + 1) ++ (t ++ s.more level close ts)

/-- The text of a member: its key and its value. -/
def member (k : String) (t : List Char) : List Char :=
  (renderString k).toList ++ ':' :: (s.gap ++ t)

@[simp] lemma more_nil : s.more level close [] = s.pad level ++ [close] := by
  simp [more]

@[simp] lemma more_cons (t : List Char) (ts : List (List Char)) :
    s.more level close (t :: ts) =
      ',' :: (s.pad (level + 1) ++ (t ++ s.more level close ts)) := by
  simp [more]

lemma member_ne_nil (k : String) (t : List Char) : s.member k t ≠ [] := by simp [member]

/-- The parts are parted by commas. -/
lemma intercalate_comma (t : List Char) (ts : List (List Char)) :
    [','].intercalate (t :: ts) = t ++ ts.flatMap (',' :: ·) := by
  induction ts generalizing t with
  | nil => simp
  | cons u us ih => simp [List.intercalate_cons_cons, ih]

lemma after_of_ne_nil {ts : List (List Char)} (h : ts ≠ []) :
    s.after level close ts =
      [','].intercalate (ts.map (s.pad (level + 1) ++ ·)) ++ (s.pad level ++ [close]) := by
  cases ts with
  | nil => exact absurd rfl h
  | cons t ts => simp [after, more, intercalate_comma, List.flatMap_map]

lemma compact_after (ts : List (List Char)) :
    compact.after level close ts = [','].intercalate ts ++ [close] := by
  cases ts with
  | nil => simp [after]
  | cons t ts => simp [after_of_ne_nil, compact]

/-- Each part after the first has a comma before it, so the text is longer than there are parts. -/
lemma length_lt_more (ts : List (List Char)) : ts.length < (s.more level close ts).length := by
  induction ts with
  | nil => simp
  | cons t ts ih => simp; omega

lemma length_lt_after (ts : List (List Char)) (h : ∀ t ∈ ts, t ≠ []) :
    ts.length < (s.after level close ts).length := by
  cases ts with
  | nil => simp [after]
  | cons t ts =>
    have ht : 0 < t.length := List.length_pos_iff.2 (h t List.mem_cons_self)
    have hts := s.length_lt_more level close ts
    simp only [after, List.length_append, List.length_cons]
    omega

end Spacing

/-! ### Texts -/

namespace Value

mutual

/-- The text of a value at an indentation level. -/
def text (s : Spacing) (level : Nat) : Value → List Char
  | array vs => '[' :: s.after level ']' (textAll s (level + 1) vs)
  | object ms => '{' :: s.after level '}' (textMembers s (level + 1) ms)
  | v => v.render.toList

/-- The texts of some elements. -/
def textAll (s : Spacing) (level : Nat) : List Value → List (List Char)
  | [] => []
  | v :: vs => text s level v :: textAll s level vs

/-- The texts of some members. -/
def textMembers (s : Spacing) (level : Nat) : List (String × Value) → List (List Char)
  | [] => []
  | (k, v) :: ms => s.member k (text s level v) :: textMembers s level ms

end

variable (s : Spacing) (level : Nat)

@[simp] lemma textAll_eq_map (vs : List Value) : textAll s level vs = vs.map (text s level) := by
  induction vs with
  | nil => rfl
  | cons v vs ih => simp [textAll, ih]

@[simp] lemma textMembers_eq_map (ms : List (String × Value)) :
    textMembers s level ms = ms.map fun m => s.member m.1 (text s level m.2) := by
  induction ms with
  | nil => rfl
  | cons m ms ih => simp [textMembers, ih]

mutual

theorem toList_render (level : Nat) : (v : Value) → v.render.toList = v.text .compact level
  | null | bool _ | natural _ | number _ | string _ => by simp [text]
  | array vs => by
    simp only [render, text, String.toList_append, String.toList_intercalate,
      toList_renderElements (level + 1) vs, Spacing.compact_after]
    rfl
  | object ms => by
    simp only [render, text, String.toList_append, String.toList_intercalate,
      toList_renderMembers (level + 1) ms, Spacing.compact_after]
    rfl

theorem toList_renderElements (level : Nat) :
    (vs : List Value) → (renderElements vs).map String.toList = textAll .compact level vs
  | [] => rfl
  | v :: vs => by
    simp only [renderElements, textAll, List.map_cons, toList_render level v,
      toList_renderElements level vs]

theorem toList_renderMembers (level : Nat) :
    (ms : List (String × Value)) →
      (renderMembers ms).map String.toList = textMembers .compact level ms
  | [] => rfl
  | (k, v) :: ms => by
    simp only [renderMembers, textMembers, List.map_cons, toList_renderMembers level ms,
      String.toList_append, toList_render level v, Spacing.member, List.append_assoc]
    rfl

end

mutual

theorem toList_renderAt (level : Nat) :
    (v : Value) → (v.renderAt level).toList = v.text .indented level
  | null | bool _ | natural _ | number _ | string _ => by simp [text, renderAt]
  | array [] | object [] => by simp [renderAt, text, Spacing.after]
  | array (v :: vs) => by
    have h : textAll .indented (level + 1) (v :: vs) ≠ [] := by simp [textAll]
    simp only [renderAt, text, String.toList_append, String.toList_intercalate,
      toList_renderElementsAt (level + 1) (v :: vs), Spacing.after_of_ne_nil _ _ _ h]
    simp [Spacing.indented]
  | object (m :: ms) => by
    have h : textMembers .indented (level + 1) (m :: ms) ≠ [] := by simp [textMembers]
    simp only [renderAt, text, String.toList_append, String.toList_intercalate,
      toList_renderMembersAt (level + 1) (m :: ms), Spacing.after_of_ne_nil _ _ _ h]
    simp [Spacing.indented]

theorem toList_renderElementsAt (level : Nat) :
    (vs : List Value) → (renderElementsAt level vs).map String.toList =
      (textAll .indented level vs).map (Spacing.indented.pad level ++ ·)
  | [] => rfl
  | v :: vs => by
    simp only [renderElementsAt, textAll, List.map_cons, toList_renderElementsAt level vs,
      String.toList_append, toList_renderAt level v]
    rfl

theorem toList_renderMembersAt (level : Nat) :
    (ms : List (String × Value)) → (renderMembersAt level ms).map String.toList =
      (textMembers .indented level ms).map (Spacing.indented.pad level ++ ·)
  | [] => rfl
  | (k, v) :: ms => by
    simp only [renderMembersAt, textMembers, List.map_cons, toList_renderMembersAt level ms,
      String.toList_append, toList_renderAt level v, Spacing.member, List.append_assoc]
    rfl

end

/-! ### Depth -/

mutual

/-- How deep the arrays and objects of a value nest. -/
def depth : Value → Nat
  | array vs => depthAll vs + 1
  | object ms => depthMembers ms + 1
  | _ => 0

/-- The depth of the deepest of some elements. -/
def depthAll : List Value → Nat
  | [] => 0
  | v :: vs => max (depth v) (depthAll vs)

/-- The depth of the deepest of some members. -/
def depthMembers : List (String × Value) → Nat
  | [] => 0
  | (_, v) :: ms => max (depth v) (depthMembers ms)

end

lemma depthAll_le {vs : List Value} {n : Nat} : depthAll vs ≤ n ↔ ∀ v ∈ vs, v.depth ≤ n := by
  induction vs with
  | nil => simp [depthAll]
  | cons v vs ih => rw [depthAll, Nat.max_le, ih, List.forall_mem_cons]

lemma depthMembers_le {ms : List (String × Value)} {n : Nat} :
    depthMembers ms ≤ n ↔ ∀ m ∈ ms, m.2.depth ≤ n := by
  induction ms with
  | nil => simp [depthMembers]
  | cons m ms ih => rw [depthMembers, Nat.max_le, ih, List.forall_mem_cons]

lemma depth_array_le {vs : List Value} {n : Nat} :
    (array vs).depth ≤ n + 1 ↔ ∀ v ∈ vs, v.depth ≤ n := by
  simp [depth, depthAll_le]

lemma depth_object_le {ms : List (String × Value)} {n : Nat} :
    (object ms).depth ≤ n + 1 ↔ ∀ m ∈ ms, m.2.depth ≤ n := by
  simp [depth, depthMembers_le]

end Value

end ScriptGraph.Json
