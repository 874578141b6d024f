import ScriptGraph.Location

/-!
# Errors of the front end

Every error ends the unit in which it arises. It carries the location, which its message does not
repeat.
-/

namespace ScriptGraph

/-- Why a source text is refused. -/
inductive Error where
  /-- The bytes form no sequence of code points. -/
  | decode (location : Location)
  /-- The text violates the grammar: what was expected, and a description of what stands there. -/
  | unexpected (location : Location) (expectation got : String)
  /-- A name is declared twice, or the target of an assignment is no variable. -/
  | naming (location : Location) (content : String)
  /-- The text uses a part of the language that has no graph yet. -/
  | unsupported (location : Location) (what : String)
deriving DecidableEq, Repr

namespace Error

/-- Where the error is. -/
def location : Error → Location
  | decode l | unexpected l _ _ | naming l _ | unsupported l _ => l

/-- The message of the error. -/
def message : Error → String
  | decode _ => "malformed UTF-8 sequence"
  | unexpected _ expectation got => s!"{expectation}, got {got}"
  | naming _ content => content
  | unsupported _ what => s!"{what} is not implemented"

/-- A block declares a second local of one name. -/
def duplicateLocal (location : Location) (name : String) : Error :=
  .naming location s!"duplicate local `{name}` in block"

/-- The target of an assignment is no variable. -/
def invalidTarget (location : Location) : Error := .naming location "invalid assignment target"

end Error

end ScriptGraph
