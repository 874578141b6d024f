import ScriptGraph.Text.Printable

/-!
# Quoted texts

A text in double quotes, on one line and without invisible characters: the quote, the backslash and
four control characters have short escapes, every other character that cannot be shown is written by
its number.
-/

namespace ScriptGraph.Quoted

/-- A number in lowercase hexadecimal digits. -/
def hexadecimal (n : Nat) : String := String.ofList (Nat.toDigits 16 n)

/-- The written form of one character. -/
def escape (c : Char) : String :=
  match c with
  | '\x00' => "\\0"
  | '\t' => "\\t"
  | '\n' => "\\n"
  | '\r' => "\\r"
  | '"' => "\\\""
  | '\\' => "\\\\"
  | c => if Printable.isVisible c then c.toString else "\\u\x7b" ++ hexadecimal c.toNat ++ "\x7d"

/-- The written form of a text. -/
def render (s : String) : String := "\"" ++ String.join (s.toList.map escape) ++ "\""

end ScriptGraph.Quoted
