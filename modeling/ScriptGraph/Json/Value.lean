import ScriptGraph.Number.Layout
import ScriptGraph.Text.Quoted

/-!
# JSON values and their texts

A value has two written forms: a compact one without blanks, and an indented one with a member or an
element on each line. A number that is not finite is written as null.
-/

namespace ScriptGraph.Json

/-- A JSON value. The members of an object keep their order. -/
inductive Value where
  | null
  | bool (value : Bool)
  /-- An integer without a sign that fits a 64-bit word. -/
  | natural (value : Nat)
  /-- Any other number. -/
  | number (value : Number)
  | string (value : String)
  | array (elements : List Value)
  | object (members : List (String × Value))
deriving Inhabited

/-! ### Scalars -/

/-- The written form of a character in a string. -/
def escape (c : Char) : String :=
  match c with
  | '"' => "\\\""
  | '\\' => "\\\\"
  | '\x08' => "\\b"
  | '\x0c' => "\\f"
  | '\n' => "\\n"
  | '\r' => "\\r"
  | '\t' => "\\t"
  | c =>
    if c.toNat < 0x20 then
      "\\u00" ++ (if c.toNat < 0x10 then "0" else "") ++ Quoted.hexadecimal c.toNat
    else c.toString

/-- The written form of a string. -/
def renderString (s : String) : String := "\"" ++ String.join (s.toList.map escape) ++ "\""

/-- The written form of a number. -/
def renderNumber : Number → String
  | .nan => "null"
  | .ranked negative r =>
    if r.val = infinityRank then "null" else Number.renderRank .interchange negative r.val

namespace Value

/-! ### Compact form -/

mutual

/-- The compact form of a value. -/
def render : Value → String
  | null => "null"
  | bool b => if b then "true" else "false"
  | natural n => toString n
  | number x => renderNumber x
  | string s => renderString s
  | array vs => "[" ++ ",".intercalate (renderElements vs) ++ "]"
  | object ms => "\x7b" ++ ",".intercalate (renderMembers ms) ++ "\x7d"

/-- The forms of the elements of an array. -/
def renderElements : List Value → List String
  | [] => []
  | v :: vs => render v :: renderElements vs

/-- The forms of the members of an object. -/
def renderMembers : List (String × Value) → List String
  | [] => []
  | (k, v) :: ms => (renderString k ++ ":" ++ render v) :: renderMembers ms

end

/-! ### Indented form -/

/-- A line feed and the blanks of an indentation level. -/
def newLine (level : Nat) : String := "\n" ++ String.ofList (List.replicate (2 * level) ' ')

mutual

/-- The indented form of a value at an indentation level. -/
def renderAt (level : Nat) : Value → String
  | array [] => "[]"
  | array vs => "[" ++ ",".intercalate (renderElementsAt (level + 1) vs) ++ newLine level ++ "]"
  | object [] => "\x7b\x7d"
  | object ms =>
    "\x7b" ++ ",".intercalate (renderMembersAt (level + 1) ms) ++ newLine level ++ "\x7d"
  | v => v.render

/-- The forms of the elements of an array, each on a line of its own. -/
def renderElementsAt (level : Nat) : List Value → List String
  | [] => []
  | v :: vs => (newLine level ++ renderAt level v) :: renderElementsAt level vs

/-- The forms of the members of an object, each on a line of its own. -/
def renderMembersAt (level : Nat) : List (String × Value) → List String
  | [] => []
  | (k, v) :: ms =>
    (newLine level ++ renderString k ++ ": " ++ renderAt level v) :: renderMembersAt level ms

end

/-- The indented form of a value. -/
def renderIndented (v : Value) : String := v.renderAt 0

end Value

end ScriptGraph.Json
