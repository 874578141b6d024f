import ScriptGraph.Proofs.Machine

/-!
# Places and visible declarations

A place in some code is known by what is around it. Visible at a place are the declarations before
it in the blocks around it, up to the body of its function, and the parameters of the function. A
declaration with a value is not yet before what stands in its value. The instructions that come
before a place are the first ones of the whole code, and what is visible has been declared by them.
-/

namespace ScriptGraph

/-! ### Places -/

/-- What is directly around a part of some code. -/
inductive Surrounding where
  /-- The part is the target of an assignment. -/
  | target (value : Code)
  /-- The part is the value of an assignment. -/
  | value (target : Code)
  /-- The part is the value of a declaration. -/
  | definition (name : String) (location : Location)
  /-- The part is a statement of a `do` block. -/
  | scope (before after : List Code) (location : Location)
  /-- The part is a statement of the body of a function. -/
  | function (parameters : List (String × Location)) (before after : List Code)
      (location : Location)

namespace Surrounding

/-- The code around a part, with the part in it. -/
def fill (c : Code) : Surrounding → Code
  | target v => .assign c v
  | value t => .assign t c
  | definition n l => .define n l c
  | scope before after l => .scope (before ++ c :: after) l
  | function ps before after l => .function ps (before ++ c :: after) l

/-- The instructions of the code around a part that come before those of the part. -/
def opening : Surrounding → List Instruction
  | target _ | definition .. => []
  | value t => t.instructions
  | scope before _ _ => .pushBlock true :: Code.instructionsAll before
  | function ps before _ _ =>
    .pushFunction :: ps.map (fun p => .parameter p.1 p.2) ++ Code.instructionsAll before

end Surrounding

/-- A place in some code: what is around it, the innermost first. -/
abbrev Place : Type := List Surrounding

namespace Place

/-- The whole code with a part at a place. -/
def fill (c : Code) : Place → Code
  | [] => c
  | s :: outer => fill (s.fill c) outer

/-- The instructions that come before those of the part at a place. -/
def issued : Place → List Instruction
  | [] => []
  | s :: outer => issued outer ++ s.opening

end Place

/-! ### Visible declarations -/

/-- A declaration of a local variable. -/
structure Declaration where
  name : String
  location : Location
  /-- The instructions before the one that declares the variable. -/
  issued : List Instruction

namespace Declaration

/-- Whether an instruction is the one that declares the variable. -/
def IsDeclaredBy (d : Declaration) : Instruction → Prop
  | .declare n l | .define n l | .parameter n l => d.name = n ∧ d.location = l
  | _ => False

/-- Whether the builder hands a slot out for a declaration. -/
def Takes (d : Declaration) (slot : Nat) : Prop :=
  ∃ m b, Machine.run? {} d.issued = some m ∧
    m.builder.declare d.name d.location = .ok (b, .getLocal slot (some d.location))

/-- The declaration that a statement is, if some instructions come before it. A variable with a
value is declared after the value. -/
def ofStatement? (issued : List Instruction) : Code → Option Declaration
  | .declare n l => some ⟨n, l, issued⟩
  | .define n l v => some ⟨n, l, issued ++ v.instructions⟩
  | _ => none

/-- The declarations among some statements, in order. -/
def ofStatements (issued : List Instruction) : List Code → List Declaration
  | [] => []
  | c :: cs =>
    (ofStatement? issued c).toList ++ ofStatements (issued ++ (c.instructions ++ [.statement])) cs

/-- The declarations of some parameters, in order. -/
def ofParameters (issued : List Instruction) : List (String × Location) → List Declaration
  | [] => []
  | p :: ps => ⟨p.1, p.2, issued⟩ :: ofParameters (issued ++ [.parameter p.1 p.2]) ps

end Declaration

/-- The declarations that are visible at a place, by the block that they belong to, the innermost
block first. Parameters belong to the body of their function, and nothing outside of a function is
visible in it. -/
def Place.visible : Place → List (List Declaration)
  | [] => []
  | .target _ :: outer | .value _ :: outer | .definition .. :: outer => visible outer
  | .scope before _ _ :: outer =>
    Declaration.ofStatements (issued outer ++ [.pushBlock true]) before :: visible outer
  | .function ps before _ _ :: outer =>
    let start := issued outer ++ [.pushFunction]
    [Declaration.ofParameters start ps ++
      Declaration.ofStatements (start ++ ps.map fun p => .parameter p.1 p.2) before]

/-- Whether a declaration is the innermost one of a name. -/
inductive Innermost (name : String) : List (List Declaration) → Declaration → Prop
  | here {ds : List Declaration} {outer : List (List Declaration)} {d : Declaration} (hd : d ∈ ds)
      (hname : d.name = name) : Innermost name (ds :: outer) d
  | outer {ds : List Declaration} {outer : List (List Declaration)} {d : Declaration}
      (hds : ∀ d' ∈ ds, d'.name ≠ name) (h : Innermost name outer d) :
      Innermost name (ds :: outer) d

lemma Innermost.exists_mem {name : String} {scopes : List (List Declaration)} {d : Declaration}
    (h : Innermost name scopes d) : ∃ ds ∈ scopes, d ∈ ds ∧ d.name = name := by
  induction h with
  | here hd hname => exact ⟨_, List.mem_cons_self, hd, hname⟩
  | outer hds h ih =>
    obtain ⟨ds, hmem, hd⟩ := ih
    exact ⟨ds, List.mem_cons_of_mem _ hmem, hd⟩

/-! ### Instructions before a place -/

lemma Code.instructionsAll_append (cs ds : List Code) :
    instructionsAll (cs ++ ds) = instructionsAll cs ++ instructionsAll ds := by
  induction cs with
  | nil => rfl
  | cons c cs ih => simp [instructionsAll, ih]

/-- The instructions up to a part and those of the part come first in those of the whole. -/
lemma Place.issued_prefix (place : Place) (c : Code) :
    place.issued ++ c.instructions <+: (place.fill c).instructions := by
  induction place generalizing c with
  | nil => exact List.prefix_refl _
  | cons s outer ih =>
    have hstep : s.opening ++ c.instructions <+: (s.fill c).instructions := by
      cases s with
      | target v => exact ⟨v.instructions ++ [.assign], by simp [Surrounding.fill,
          Surrounding.opening, Code.instructions]⟩
      | value t => exact ⟨[.assign], by simp [Surrounding.fill, Surrounding.opening,
          Code.instructions]⟩
      | definition n l => exact ⟨[.define n l], by simp [Surrounding.fill, Surrounding.opening,
          Code.instructions]⟩
      | scope before after l =>
        refine ⟨.statement :: Code.instructionsAll after ++ [.popBlock l], ?_⟩
        simp [Surrounding.fill, Surrounding.opening, Code.instructions, Code.instructionsAll_append,
          Code.instructionsAll]
      | function ps before after l =>
        refine ⟨.statement :: Code.instructionsAll after ++ [.popFunction l], ?_⟩
        simp [Surrounding.fill, Surrounding.opening, Code.instructions, Code.instructionsAll_append,
          Code.instructionsAll]
    rw [issued, List.append_assoc]
    exact ((List.prefix_append_right_inj _).2 hstep).trans (ih (s.fill c))

/-- Whether the instruction of a declaration comes right after those before it. -/
def Declaration.Precedes (d : Declaration) (is : List Instruction) : Prop :=
  ∃ i, d.IsDeclaredBy i ∧ d.issued ++ [i] <+: is

lemma Declaration.Precedes.append {d : Declaration} {is : List Instruction} (h : d.Precedes is)
    (js : List Instruction) : d.Precedes (is ++ js) := by
  obtain ⟨i, hi, hprefix⟩ := h
  exact ⟨i, hi, hprefix.trans (List.prefix_append is js)⟩

lemma Declaration.precedes_of_mem_ofStatements {cs : List Code} {is : List Instruction}
    {d : Declaration} (h : d ∈ ofStatements is cs) :
    d.Precedes (is ++ Code.instructionsAll cs) := by
  induction cs generalizing is with
  | nil => cases h
  | cons c cs ih =>
    have hsplit : is ++ Code.instructionsAll (c :: cs) =
        is ++ (c.instructions ++ [.statement]) ++ Code.instructionsAll cs := by
      simp [Code.instructionsAll]
    rw [hsplit]
    rcases List.mem_append.1 h with h | h
    · rw [List.append_assoc]
      cases c with
      | constant | read | assign | scope | function => cases h
      | declare n l =>
        cases List.mem_singleton.1 h
        exact ⟨.declare n l, ⟨rfl, rfl⟩, by simp [Code.instructions]⟩
      | define n l v =>
        cases List.mem_singleton.1 h
        exact ⟨.define n l, ⟨rfl, rfl⟩, by simp [Code.instructions]⟩
    · exact ih h

lemma Declaration.precedes_of_mem_ofParameters {ps : List (String × Location)}
    {is : List Instruction} {d : Declaration} (h : d ∈ ofParameters is ps) :
    d.Precedes (is ++ ps.map fun p => .parameter p.1 p.2) := by
  induction ps generalizing is with
  | nil => cases h
  | cons p ps ih =>
    rcases List.mem_cons.1 h with rfl | h
    · exact ⟨.parameter p.1 p.2, ⟨rfl, rfl⟩, by simp⟩
    · simpa using ih h

/-- What is visible at a place has been declared before it. -/
lemma Place.precedes_of_visible {place : Place} {ds : List Declaration} {d : Declaration}
    (hds : ds ∈ place.visible) (hd : d ∈ ds) : d.Precedes place.issued := by
  induction place with
  | nil => cases hds
  | cons s outer ih =>
    cases s with
    | target v => exact (ih hds).append _
    | value t => exact (ih hds).append _
    | definition n l => exact (ih hds).append _
    | scope before after l =>
      rcases List.mem_cons.1 hds with rfl | hds
      · have h := Declaration.precedes_of_mem_ofStatements hd
        simpa [issued, Surrounding.opening] using h
      · exact (ih hds).append _
    | function ps before after l =>
      cases List.mem_singleton.1 hds
      rcases List.mem_append.1 hd with hd | hd
      · have h := (Declaration.precedes_of_mem_ofParameters hd).append
          (Code.instructionsAll before)
        simpa [issued, Surrounding.opening] using h
      · have h := Declaration.precedes_of_mem_ofStatements hd
        simpa [issued, Surrounding.opening] using h

end ScriptGraph
