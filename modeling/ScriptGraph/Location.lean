/-!
# Source locations

A location is a line and a column, both counted from one. Zero stands for an unknown part, so
`0:0` is the unknown location. Locations serve diagnostics only.
-/

namespace ScriptGraph

/-- A position in a source text by line and column. -/
structure Location where
  line : Nat
  column : Nat
deriving DecidableEq, Repr, Inhabited

namespace Location

/-- The location of which nothing is known. -/
def unknown : Location := ⟨0, 0⟩

/-- The location of the first character of a text. -/
def beginning : Location := ⟨1, 1⟩

/-- Whether any part of the location is known. -/
def isKnown (l : Location) : Bool := l ≠ unknown

/-- The next column of the same line. -/
def nextColumn (l : Location) : Location := ⟨l.line, l.column + 1⟩

/-- The first column of the next line. -/
def nextLine (l : Location) : Location := ⟨l.line + 1, 1⟩

/-- The location after a code point: a line feed starts a line, all else takes one column. -/
def advance (l : Location) (codePoint : Nat) : Location :=
  if codePoint = 0x0A then l.nextLine else l.nextColumn

/-- Locations are ordered by line, then by column. -/
def order (a b : Location) : Ordering := (compare a.line b.line).then (compare a.column b.column)

/-- The text of a location in a diagnostic: nothing if unknown, the line alone if the column is
unknown. -/
def render (l : Location) : String :=
  match l.line, l.column with
  | 0, 0 => ""
  | line, 0 => toString line
  | line, column => s!"{line}:{column}"

/-- The text of a location that shows both of its parts. -/
def describe (l : Location) : String := s!"Location({l.line}, {l.column})"

@[simp] theorem advance_lineFeed (l : Location) : l.advance 0x0A = ⟨l.line + 1, 1⟩ := rfl

theorem advance_of_ne {c : Nat} (l : Location) (h : c ≠ 0x0A) :
    l.advance c = ⟨l.line, l.column + 1⟩ := by
  simp [advance, h, nextColumn]

end Location

end ScriptGraph
