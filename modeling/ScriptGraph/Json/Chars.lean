import ScriptGraph.Json.Fault

/-!
# Strings of JSON documents

A string is read character by character. Outside strict reading, whose result is used, an escape
need not denote a character.
-/

namespace ScriptGraph.Json

/-- Where the reader of a string stands. -/
inductive Place where
  /-- Between characters. -/
  | text
  /-- After a backslash. -/
  | escape
  /-- After some digits of an escape by number, of which the first half of a pair may have been
  read. -/
  | digits (lead : Option Nat) (count value : Nat)
  /-- After the first half of a pair, before the backslash of the second. -/
  | pair (lead : Nat)
  /-- After the backslash of the second half of a pair. -/
  | pairMark (lead : Nat)

/-- The character of a short escape. -/
def shortEscape? : Char → Option Char
  | '"' => some '"'
  | '\\' => some '\\'
  | '/' => some '/'
  | 'b' => some '\x08'
  | 'f' => some '\x0c'
  | 'n' => some '\n'
  | 'r' => some '\r'
  | 't' => some '\t'
  | _ => none

/-- The value of a hexadecimal digit. -/
def hexValue? (c : Char) : Option Nat :=
  if c.isDigit then some (c.toNat - '0'.toNat)
  else if 'a' ≤ c ∧ c ≤ 'f' then some (c.toNat - 'a'.toNat + 10)
  else if 'A' ≤ c ∧ c ≤ 'F' then some (c.toNat - 'A'.toNat + 10)
  else none

/-- Whether a number is the first half of a pair. -/
def isLead (n : Nat) : Bool := 0xD800 ≤ n && n ≤ 0xDBFF

/-- Whether a number is the second half of a pair. -/
def isTrail (n : Nat) : Bool := 0xDC00 ≤ n && n ≤ 0xDFFF

/-- What follows a complete escape by number: the rest of a pair, or a character. -/
def complete (lead : Option Nat) (n : Nat) : Except Fault (Place × List Char) :=
  match lead with
  | some h =>
    if isTrail n then
      .ok (.text, [Char.ofNat (0x10000 + (h - 0xD800) * 0x400 + (n - 0xDC00))])
    else .error .malformed
  | none =>
    if isTrail n then .error .malformed
    else if isLead n then .ok (.pair n, [])
    else .ok (.text, [Char.ofNat n])

/-- The number of bytes of a text. -/
def byteLength (cs : List Char) : Nat := cs.foldl (fun n c => n + c.utf8Size) 0

/-- The characters of a string after its opening quote, and the text after its closing quote. -/
def chars (strict : Bool) : Place → Reader (List Char)
  | _, [] => .error .incomplete
  | .text, c :: cs =>
    if c = '"' then .ok ([], cs)
    else if c = '\\' then chars strict .escape cs
    else if c.toNat < 0x20 then .error .malformed
    else do
      let (s, rest) ← chars strict .text cs
      return (c :: s, rest)
  | .escape, c :: cs =>
    match shortEscape? c with
    | some d => do
      let (s, rest) ← chars strict .text cs
      return (d :: s, rest)
    | none => if c = 'u' then chars strict (.digits none 0 0) cs else .error .malformed
  | .digits lead count value, c :: cs =>
    match hexValue? c with
    | none =>
      -- an escape with too few bytes left is cut short, whatever they are
      .error (if count + byteLength ((c :: cs).take 4) < 4 then .incomplete else .malformed)
    | some d =>
      let value := value * 16 + d
      if count < 3 then chars strict (.digits lead (count + 1) value) cs
      else if strict then do
        let (place, read) ← complete lead value
        let (s, rest) ← chars strict place cs
        return (read ++ s, rest)
      else chars strict .text cs
  | .pair lead, c :: cs =>
    if c = '\\' then chars strict (.pairMark lead) cs else .error .malformed
  | .pairMark lead, c :: cs =>
    if c = 'u' then chars strict (.digits (some lead) 0 0) cs else .error .malformed

/-- A string after its opening quote. -/
def stringBody : Reader String := fun cs => do
  let (s, rest) ← chars true .text cs
  return (String.ofList s, rest)

/-- The text after a string whose opening quote has been read and whose content does not matter. -/
def skipString (cs : List Char) : Except Fault (List Char) := (chars false .text cs).map Prod.snd

end ScriptGraph.Json
