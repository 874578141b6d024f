import ScriptGraph.Number.Layout
import ScriptGraph.Text.Quoted

/-!
# Literals

The constant values of the language.
-/

namespace ScriptGraph

/-- A constant value. -/
inductive Literal where
  | undefined
  | number (value : Number)
  | string (value : String)
deriving DecidableEq

namespace Literal

/-- Equality of values, with numbers compared as numbers. -/
def equal : Literal → Literal → Bool
  | undefined, undefined => true
  | number a, number b => a == b
  | string a, string b => a == b
  | _, _ => false

instance : BEq Literal := ⟨equal⟩

/-- The text of a literal for readers. -/
def render : Literal → String
  | undefined => "undefined"
  | number n => n.render
  | string s => Quoted.render s

end Literal

end ScriptGraph
