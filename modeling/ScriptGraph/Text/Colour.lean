/-!
# Coloured text

Text on a terminal can be coloured by control sequences around it.
-/

namespace ScriptGraph

/-- The colours in use. -/
inductive Colour where
  | green | dimmed | red | yellow

namespace Colour

/-- The sequence that ends all colours. -/
def reset : String := "\x1b[0m"

/-- The sequence that starts a colour. -/
def start : Colour → String
  | green => "\x1b[32m"
  | dimmed => "\x1b[2;37m"
  | red => "\x1b[31m"
  | yellow => "\x1b[33m"

/-- The text in a colour, if colours are wanted. Where the text itself ends all colours, the colour
starts again. -/
def paint (colour : Colour) (enabled : Bool) (s : String) : String :=
  if enabled then colour.start ++ s.replace reset (reset ++ colour.start) ++ reset else s

end Colour

end ScriptGraph
