/-!
# Text in columns

Padding counts characters; a text wider than its column is left as it is.
-/

namespace ScriptGraph.Column

/-- A text of spaces. -/
def blanks (n : Nat) : String := String.ofList (List.replicate n ' ')

/-- The text at the left of a column. -/
def left (width : Nat) (s : String) : String := s ++ blanks (width - s.length)

/-- The text at the right of a column. -/
def right (width : Nat) (s : String) : String := blanks (width - s.length) ++ s

/-- The text in the middle of a column; an odd space goes to the right. -/
def center (width : Nat) (s : String) : String :=
  let free := width - s.length
  blanks (free / 2) ++ s ++ blanks (free - free / 2)

/-- The text cut after a number of characters. -/
def cut (width : Nat) (s : String) : String := String.ofList (s.toList.take width)

end ScriptGraph.Column
