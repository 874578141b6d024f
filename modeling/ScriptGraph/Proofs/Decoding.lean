import Mathlib.Data.List.Induction
import Mathlib.Tactic.Lemma
import ScriptGraph.Source.Cursor

/-!
# Decoding step by step

A text is decoded from its start, one code point after another, until its end or until the first
place where no sequence starts. The symbols of a text are these steps, so a cursor that passes
well-formed symbols only stays at places to which decoding leads, and its location counts the line
feeds and the code points that it has passed.
-/

namespace ScriptGraph

namespace CodePoint

/-! ### Steps -/

/-- Decoding some bytes, one code point after another, leads through code points to a rest. -/
inductive Decodes : List UInt8 → List Nat → List UInt8 → Prop
  | nil (bs : List UInt8) : Decodes bs [] bs
  | cons {bs rest : List UInt8} {c n : Nat} {cs : List Nat} (h : decode? bs = some (c, n))
      (hrest : Decodes (bs.drop n) cs rest) : Decodes bs (c :: cs) rest

namespace Decodes

variable {bs mid rest rest' : List UInt8} {cs ds : List Nat}

lemma trans (h : Decodes bs cs mid) (h' : Decodes mid ds rest) : Decodes bs (cs ++ ds) rest := by
  induction h with
  | nil => exact h'
  | cons hc _ ih => exact .cons hc (ih h')

/-- The rest is the end of the bytes. -/
lemma suffix (h : Decodes bs cs rest) : rest <:+ bs := by
  induction h with
  | nil => exact List.suffix_refl _
  | cons _ _ ih => exact ih.trans (List.drop_suffix _ _)

/-- Each code point has taken at least one byte. -/
lemma length_le (h : Decodes bs cs rest) : cs.length + rest.length ≤ bs.length := by
  induction h with
  | nil => simp
  | @cons bs rest c n cs hc _ ih =>
    obtain ⟨hpos, hle⟩ := length_of_decode? hc
    rw [List.length_drop] at ih
    rw [List.length_cons]
    omega

/-- Of two places to which decoding leads, the one with more bytes left leads to the other. -/
lemma connects (h : Decodes bs cs rest) (h' : Decodes bs ds rest')
    (hle : rest'.length ≤ rest.length) : ∃ es, ds = cs ++ es ∧ Decodes rest es rest' := by
  induction h generalizing ds with
  | nil => exact ⟨ds, rfl, h'⟩
  | @cons bs rest c n cs hc hcs ih =>
    cases h' with
    | nil =>
      have hlen := hcs.length_le
      obtain ⟨hpos, hn⟩ := length_of_decode? hc
      rw [List.length_drop] at hlen
      omega
    | cons hd hds =>
      rw [hc] at hd
      cases hd
      obtain ⟨es, rfl, hes⟩ := ih hds hle
      exact ⟨es, rfl, hes⟩

/-- Decoding leads to a rest through one list of code points only. -/
lemma unique (h : Decodes bs cs rest) (h' : Decodes bs ds rest) : cs = ds := by
  obtain ⟨es, rfl, hes⟩ := h.connects h' (Nat.le_refl _)
  have hlen := hes.length_le
  rw [List.length_eq_zero_iff.1 (by omega : es.length = 0), List.append_nil]

end Decodes

/-- Decoding fails at an offset, after some code points: more bytes follow, and no sequence starts
with them. -/
structure FailsAt (bs : List UInt8) (offset : Nat) (before : List Nat) : Prop where
  decodes : Decodes bs before (bs.drop offset)
  inside : offset < bs.length
  fails : decode? (bs.drop offset) = none

/-- Decoding leads nowhere from the place where it fails. -/
lemma FailsAt.stuck {bs rest : List UInt8} {offset : Nat} {before cs : List Nat}
    (h : FailsAt bs offset before) (hcs : Decodes (bs.drop offset) cs rest) :
    cs = [] ∧ rest = bs.drop offset := by
  cases hcs with
  | nil => exact ⟨rfl, rfl⟩
  | cons hc _ =>
    rw [h.fails] at hc
    cases hc

/-- Decoding does not lead beyond the place where it fails. -/
lemma FailsAt.le {bs rest : List UInt8} {offset : Nat} {before cs : List Nat}
    (h : FailsAt bs offset before) (hcs : Decodes bs cs rest) :
    offset + rest.length ≥ bs.length := by
  rcases Nat.le_total rest.length (bs.drop offset).length with hle | hle
  · obtain ⟨es, -, hes⟩ := h.decodes.connects hcs hle
    rw [(h.stuck hes).2, List.length_drop]
    omega
  · rw [List.length_drop] at hle
    have := h.inside
    omega

end CodePoint

/-! ### Symbols -/

namespace Symbol

open CodePoint (Decodes)

/-- The code points among some symbols. -/
def codePoints (symbols : List Symbol) : List Nat := symbols.filterMap value?

@[simp] lemma codePoints_nil : codePoints [] = [] := rfl

@[simp] lemma codePoints_cons (c : Nat) (bs : List UInt8) (symbols : List Symbol) :
    codePoints (codePoint c bs :: symbols) = c :: codePoints symbols := rfl

@[simp] lemma codePoints_append (ss ts : List Symbol) :
    codePoints (ss ++ ts) = codePoints ss ++ codePoints ts := List.filterMap_append

/-- Whether all symbols are code points. -/
def WellFormed (symbols : List Symbol) : Prop := ∀ s ∈ symbols, s.value?.isSome

/-- Well-formed symbols at the start of a text are steps of decoding it, and of decoding what they
spell. -/
lemma decodes_of_decode_eq_append {bs : List UInt8} {passed after : List Symbol}
    (h : decode bs = passed ++ after) (hpassed : WellFormed passed) :
    ∃ rest, bs = spell passed ++ rest ∧ after = decode rest ∧
      Decodes bs (codePoints passed) rest ∧ Decodes (spell passed) (codePoints passed) [] ∧
      decode (spell passed) = passed := by
  induction passed generalizing bs with
  | nil => exact ⟨bs, rfl, h.symm, .nil bs, .nil [], rfl⟩
  | cons s passed ih =>
    cases bs with
    | nil => cases h
    | cons b bs =>
      cases hd : CodePoint.decode? (b :: bs) with
      | none =>
        rw [decode_of_none hd] at h
        obtain ⟨rfl, -⟩ := List.cons.inj h
        cases hpassed _ List.mem_cons_self
      | some r =>
        obtain ⟨c, n⟩ := r
        rw [decode_of_some hd] at h
        obtain ⟨rfl, htail⟩ := List.cons.inj h
        obtain ⟨rest, hbs, hafter, hsteps, hown, hself⟩ :=
          ih htail fun s hs => hpassed s (List.mem_cons_of_mem _ hs)
        obtain ⟨-, hle⟩ := CodePoint.length_of_decode? hd
        have hown' := CodePoint.decode?_take_append hd (spell passed)
        have hdrop : ((b :: bs).take n ++ spell passed).drop n = spell passed :=
          List.drop_left' (by rw [List.length_take, Nat.min_eq_left hle])
        have htake : ((b :: bs).take n ++ spell passed).take n = (b :: bs).take n :=
          List.take_left' (by rw [List.length_take, Nat.min_eq_left hle])
        refine ⟨rest, ?_, hafter, .cons hd hsteps, .cons hown' (hdrop.symm ▸ hown), ?_⟩
        · rw [spell_cons, List.append_assoc, ← hbs]
          exact (List.take_append_drop n _).symm
        · rw [spell_cons]
          exact (decode_of_some hown').trans (by rw [hdrop, htake, hself])

end Symbol

/-! ### Locations -/

namespace Location

/-- The location after some code points: a line for each line feed, and a column for each code point
after the last of them, both counted from one. -/
def after (cs : List Nat) : Location :=
  ⟨1 + cs.count 0x0A, 1 + (cs.reverse.takeWhile (· ≠ 0x0A)).length⟩

lemma foldl_advance (cs : List Nat) : cs.foldl advance beginning = after cs := by
  induction cs using List.reverseRecOn with
  | nil => rfl
  | append_singleton cs c ih =>
    rw [List.foldl_append, ih, List.foldl_cons, List.foldl_nil]
    by_cases hc : c = 0x0A
    · subst hc
      simp [after, Nat.add_assoc]
    · rw [advance_of_ne _ hc]
      simp [after, hc, Nat.add_assoc]

/-- No line or column is further than one more than the number of code points. -/
lemma after_le (cs : List Nat) :
    (after cs).line ≤ cs.length + 1 ∧ (after cs).column ≤ cs.length + 1 := by
  have hline := List.count_le_length (a := 0x0A) (l := cs)
  have hcolumn := (List.takeWhile_sublist (fun c => decide (c ≠ 0x0A)) (l := cs.reverse)).length_le
  rw [List.length_reverse] at hcolumn
  simp only [after]
  omega

end Location

/-! ### Cursors -/

/-- Whether a cursor has passed the given code points of a window and has the given bytes left,
where the window starts at an offset. -/
structure Cursor.At (window : List UInt8) (offset : Nat) (c : Cursor) (cs : List Nat)
    (rest : List UInt8) : Prop where
  decodes : CodePoint.Decodes window cs rest
  symbols : c.rest = Symbol.decode rest
  position : c.position + rest.length = offset + window.length
  location : c.location = .after cs

/-- A cursor of a whole buffer has all of it left. -/
lemma Cursor.ofBytes_eq (buffer : List UInt8) :
    ofBytes buffer = ⟨Symbol.decode buffer, 0, .beginning⟩ := by
  rw [ofBytes, ofWindow, window, List.drop_zero, List.take_length, Nat.zero_min]

namespace Cursor.At

variable {window rest : List UInt8} {offset : Nat} {c : Cursor} {cs : List Nat}

lemma ofWindow (buffer : List UInt8) (offset size : Nat) :
    At (Cursor.window buffer offset size) (min offset buffer.length)
      (Cursor.ofWindow buffer offset size) [] (Cursor.window buffer offset size) :=
  ⟨.nil _, rfl, rfl, rfl⟩

lemma ofBytes (buffer : List UInt8) : At buffer 0 (Cursor.ofBytes buffer) [] buffer :=
  Cursor.ofBytes_eq buffer ▸ ⟨.nil _, rfl, rfl, rfl⟩

lemma inside (h : c.At window offset cs rest) :
    offset ≤ c.position ∧ c.position ≤ offset + window.length := by
  have hlen := h.decodes.length_le
  have hpos := h.position
  omega

/-- The bytes left are those of the window from the cursor's position on. -/
lemma rest_eq (h : c.At window offset cs rest) : rest = window.drop (c.position - offset) := by
  have hsuffix := List.suffix_iff_eq_drop.1 h.decodes.suffix
  have hlen := h.decodes.length_le
  have hpos := h.position
  rwa [show c.position - offset = window.length - rest.length by omega]

lemma take_append (h : c.At window offset cs rest) :
    window.take (c.position - offset) ++ rest = window := by
  conv_lhs => rw [h.rest_eq]
  exact List.take_append_drop _ _

/-- Nothing is left exactly at the end of the window. -/
lemma rest_eq_nil_iff (h : c.At window offset cs rest) :
    rest = [] ↔ c.position = offset + window.length := by
  have hpos := h.position
  rw [← List.length_eq_zero_iff]
  omega

/-- Passing well-formed symbols is decoding. -/
lemma advance (h : c.At window offset cs rest) {n : Nat}
    (hn : Symbol.WellFormed (c.rest.take n)) :
    ∃ rest', rest = Symbol.spell (c.rest.take n) ++ rest' ∧
      (c.advance n).At window offset (cs ++ Symbol.codePoints (c.rest.take n)) rest' := by
  have hsplit : Symbol.decode rest = c.rest.take n ++ c.rest.drop n := by
    rw [List.take_append_drop, h.symbols]
  obtain ⟨rest', hrest, hafter, hsteps, -, -⟩ := Symbol.decodes_of_decode_eq_append hsplit hn
  refine ⟨rest', hrest, h.decodes.trans hsteps, hafter, ?_, ?_⟩
  · have hpos := h.position
    rw [hrest, List.length_append] at hpos
    simp only [Cursor.advance]
    omega
  · have hfold {ss : List Symbol} (hss : Symbol.WellFormed ss) (l : Location) :
        ss.foldl Symbol.advance l = (Symbol.codePoints ss).foldl Location.advance l := by
      induction ss generalizing l with
      | nil => rfl
      | cons s ss ih =>
        cases s with
        | codePoint v bs => exact ih (fun s hs => hss s (List.mem_cons_of_mem _ hs)) _
        | malformed b => cases hss _ List.mem_cons_self
    rw [Cursor.advance, ← Location.foldl_advance, List.foldl_append, Location.foldl_advance,
      ← h.location]
    exact hfold hn _

end Cursor.At

end ScriptGraph
