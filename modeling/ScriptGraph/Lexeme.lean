import ScriptGraph.Literal
import ScriptGraph.Location
import ScriptGraph.Number.Reading
import ScriptGraph.Text.Utf8
import ScriptGraph.Token

/-!
# Lexemes

A token as it stands in the source: its kind, its bytes and its place. The value of a lexeme is
computed from its kind and bytes alone:

- a number is read without its separators, a character literal denotes its code point;
- a string loses its quotes and has its escapes replaced, a raw string loses only `@` and its
  quotes;
- a quoted identifier loses its backticks;
- any other lexeme denotes its own text.
-/

namespace ScriptGraph

/-- A token in the source. -/
structure Lexeme where
  token : Token
  /-- The offset of the first byte. -/
  start : Nat
  bytes : List UInt8
  location : Location
deriving DecidableEq, Repr

namespace Lexeme

/-- The offset after the last byte. -/
def stop (l : Lexeme) : Nat := l.start + l.bytes.length

/-- The source text of the lexeme. -/
def text (l : Lexeme) : String := Utf8.decode l.bytes

/-! ### Quoted content -/

/-- The bytes without the first `n` and without a closing byte, if it is there. -/
def strip (n : Nat) (closing : UInt8) (bytes : List UInt8) : List UInt8 :=
  let inner := bytes.drop n
  if inner.getLast? = some closing then inner.dropLast else inner

/-- What an escaped code point denotes. -/
def unescape (c : Nat) : Nat :=
  if c = 'n'.toNat then 0x0A
  else if c = 'r'.toNat then 0x0D
  else if c = 't'.toNat then 0x09
  else if c = '0'.toNat then 0x00
  else c

/-- The characters with every escape replaced; a backslash at the end is dropped. -/
def replaceEscapes : List Char → List Char
  | [] => []
  | ['\\'] => []
  | '\\' :: c :: cs => Char.ofNat (unescape c.toNat) :: replaceEscapes cs
  | c :: cs => c :: replaceEscapes cs

/-- The value of a string literal. -/
def stringValue (bytes : List UInt8) : String :=
  String.ofList (replaceEscapes (Utf8.decodeFrom 0 (strip 1 0x22 bytes)))

/-- The code point that stands for one that cannot be decoded. -/
def undecodable : Nat := 0xFFFFFFFF

/-- The code point at the start of the bytes. -/
def firstCodePoint (bytes : List UInt8) : Nat :=
  match CodePoint.decode? bytes with
  | some (c, _) => c
  | none => undecodable

/-- The code point of a character literal. -/
def charValue (bytes : List UInt8) : Nat :=
  match strip 1 0x27 bytes with
  | 0x5C :: escaped => unescape (firstCodePoint escaped)
  | inner => firstCodePoint inner

/-- The value of a numeral, whose separators do not count. What is no numeral has no number. -/
def numeralValue (bytes : List UInt8) : Number :=
  let digits := (bytes.filter (· != 0x5F)).map fun b => Char.ofNat b.toNat
  (Number.read? digits).getD .nan

/-! ### Values and descriptions -/

/-- The value of a lexeme. -/
def value (l : Lexeme) : Literal :=
  match l.token, l.bytes.head? with
  | .number, some 0x27 => .number (.ofNat (charValue l.bytes))
  | .number, _ => .number (numeralValue l.bytes)
  | .string, some 0x40 => .string (Utf8.decode (strip 2 0x22 l.bytes))
  | .string, _ => .string (stringValue l.bytes)
  | .ident, some 0x60 => .string (Utf8.decode (strip 1 0x60 l.bytes))
  | _, _ => .string l.text

/-- The name that an identifier denotes. -/
def name (l : Lexeme) : String :=
  match l.value with
  | .string s => s
  | _ => l.text

/-- The description of a lexeme in a message. -/
def describe (l : Lexeme) : String :=
  if l.token = .eof then "end of file"
  else if l.token = .breakLine ∧ l.bytes ≠ [0x3B] then "line break"
  else s!"`{l.text}`"

/-- Whether the lexeme is a plain assignment sign. Longer operators that start with it share its
token. -/
def isAssign (l : Lexeme) : Bool := l.token = .assign ∧ l.bytes = [0x3D]

end Lexeme

end ScriptGraph
