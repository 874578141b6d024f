import ScriptGraph.Lexicon
import ScriptGraph.Source.Symbol
import ScriptGraph.Text.Quoted

/-!
# Scanning one token

A scan looks at the symbols from the start of a token and says how many of them it read and which
token they form, or why they form none. Where it fails, the symbols read are those before the fault.
A scan depends on the symbols and the keywords alone, not on positions.

- A *word* is the longest run of letters, digits and underscores.
- An *operator* is the longest run of operator characters.
- A keyword for a comment, met as a word or at the start of an operator, makes all up to the next
  line feed a comment.
-/

namespace ScriptGraph

/-- Why no token can be formed. -/
inductive ScanFault where
  /-- The next byte starts no code point. -/
  | malformed
  /-- Something else was expected. -/
  | unexpected (expectation got : String)
deriving DecidableEq, Repr

/-- The symbols read and the token that they form. -/
structure Scan where
  count : Nat
  outcome : Except ScanFault Token

namespace Scan

/-- A finished token. -/
def done (count : Nat) (token : Token) : Scan := ⟨count, .ok token⟩

/-- A fault after a number of symbols. -/
def fail (count : Nat) (fault : ScanFault) : Scan := ⟨count, .error fault⟩

/-- The scan that has read further symbols before. -/
def shift (n : Nat) (s : Scan) : Scan := ⟨n + s.count, s.outcome⟩

/-- The literal is not closed before the end. -/
def unterminated (what : String) : ScanFault := .unexpected s!"unterminated {what}" "end of file"

/-! ### Runs -/

/-- The leading symbols whose code points satisfy a condition. -/
def run (p : Nat → Bool) (symbols : List Symbol) : List Symbol :=
  symbols.takeWhile fun s => s.value?.any p

/-- Whether the symbols start with a malformed byte. -/
def startsMalformed : List Symbol → Bool
  | .malformed _ :: _ => true
  | _ => false

/-- Goes on after `n` symbols, unless the next one is malformed. -/
def andThen (symbols : List Symbol) (n : Nat) (next : List Symbol → Scan) : Scan :=
  let rest := symbols.drop n
  if startsMalformed rest then fail n .malformed else (next rest).shift n

/-- The token of the keyword that the symbols spell. -/
def keyword? (lexicon : Lexicon) (symbols : List Symbol) : Option Token :=
  (Symbol.text? symbols).bind lexicon.keyword?

/-- The rest of a comment. -/
def comment (symbols : List Symbol) : Scan :=
  andThen symbols (run (· != 0x0A) symbols).length fun _ => done 0 .comment

/-! ### Blanks, words and operators -/

/-- The rest of a run of blanks, each of a single byte. -/
def blanks (symbols : List Symbol) : Scan :=
  let isBlank (s : Symbol) := s.single?.any fun b => classOf b.toNat = .whitespace
  done (symbols.takeWhile isBlank).length .whitespace

/-- Whether a code point can continue a word. -/
def isWordPart (c : Nat) : Bool :=
  (classOf c = .ident || classOf c = .number) && c != 0x60 && c != 0x27

/-- The rest of a word. -/
def word (lexicon : Lexicon) (first : Symbol) (symbols : List Symbol) : Scan :=
  let part := run isWordPart symbols
  andThen symbols part.length fun rest =>
    match keyword? lexicon (first :: part) with
    | some .comment => comment rest
    | some token => done 0 token
    | none => done 0 .ident

/-- The length of the shortest non-empty start of the symbols that is a keyword for a comment. -/
def commentMark? (lexicon : Lexicon) (symbols : List Symbol) : Option Nat :=
  let lengths := (List.range (min lexicon.longest symbols.length)).map (· + 1)
  lengths.find? fun n => keyword? lexicon (symbols.take n) = some .comment

/-- The rest of an operator. One that is no keyword has the class of its first character. -/
def operator (lexicon : Lexicon) (kind : Token) (first : Symbol) (symbols : List Symbol) : Scan :=
  let part := run (fun c => (classOf c).isOperator) symbols
  match commentMark? lexicon (first :: part) with
  | some n => (comment (symbols.drop (n - 1))).shift (n - 1)
  | none =>
    andThen symbols part.length fun _ => done 0 ((keyword? lexicon (first :: part)).getD kind)

/-! ### Literals -/

/-- Whether a symbol is a digit of a single byte. -/
def isDigit (s : Symbol) : Bool := s.single?.any fun b => 0x30 ≤ b.toNat && b.toNat ≤ 0x39

/-- The number of symbols that continue a numeral: digits, separators, and one point that a digit
follows. -/
def numeralLength (seenPoint : Bool) : List Symbol → Nat
  | [] => 0
  | s :: rest =>
    if isDigit s || s.single? = some 0x5F then numeralLength seenPoint rest + 1
    else if s.single? = some 0x2E && !seenPoint && rest.head?.any isDigit then
      numeralLength true rest + 1
    else 0

/-- The rest of a string literal. A backslash takes the next symbol with it. -/
def string : List Symbol → Scan
  | [] => fail 0 (unterminated "string literal")
  | .malformed _ :: _ => fail 0 .malformed
  | .codePoint v _ :: rest =>
    if v = 0x22 then done 1 .string
    else if v = 0x5C then
      match rest with
      | [] => fail 1 (unterminated "string literal")
      | .malformed _ :: _ => fail 1 .malformed
      | .codePoint _ _ :: rest => (string rest).shift 2
    else (string rest).shift 1

/-- The rest of a raw string literal. -/
def rawString : List Symbol → Scan
  | [] => fail 0 (unterminated "raw string literal")
  | .malformed _ :: _ => fail 0 .malformed
  | .codePoint v _ :: rest =>
    if v = 0x22 then done 1 .string else (rawString rest).shift 1

/-- The description of what stands where a character literal should end. -/
def describe : List Symbol → String
  | .codePoint v _ :: _ =>
    if v = 0x0A then "line break"
    else if v.isValidChar then s!"`{Char.ofNat v}`"
    else "U+" ++ (Quoted.hexadecimal v).toUpper
  | _ => "end of file"

/-- The end of a character literal. -/
def closeChar (symbols : List Symbol) : Scan :=
  andThen symbols 0 fun rest =>
    if rest.head?.any (Symbol.isValue 0x27) then done 1 .number
    else fail 0 (.unexpected "expected `'` to close character literal" (describe rest))

/-- The rest of a character literal. -/
def char : List Symbol → Scan
  | [] => fail 0 (unterminated "character literal")
  | .malformed _ :: _ => fail 0 .malformed
  | .codePoint v _ :: rest =>
    if v = 0x27 then fail 0 (.unexpected "empty character literal" "`'`")
    else if v = 0x5C then
      match rest with
      | [] => fail 1 (unterminated "character literal")
      | .malformed _ :: _ => fail 1 .malformed
      | .codePoint _ _ :: rest => (closeChar rest).shift 2
    else (closeChar rest).shift 1

/-- The rest of a quoted identifier, which ends after a backtick or before a blank or a line
break. -/
def quotedIdent : List Symbol → Scan
  | [] => done 0 .ident
  | .malformed _ :: _ => fail 0 .malformed
  | .codePoint v _ :: rest =>
    if classOf v = .whitespace ∨ classOf v = .breakLine then done 0 .ident
    else if v = 0x60 then done 1 .ident
    else (quotedIdent rest).shift 1

/-! ### Any token -/

/-- The rest of a token after its first symbol. -/
def tail (lexicon : Lexicon) (first : Symbol) (v : Nat) (rest : List Symbol) : Scan :=
  match classOf v with
  | .whitespace => blanks rest
  | .ident => if v = 0x60 then quotedIdent rest else word lexicon first rest
  | .number => if v = 0x27 then char rest else done (numeralLength false rest) .number
  | .string => string rest
  | .other =>
    match rest with
    | s :: rest =>
      if v = 0x40 ∧ s.single? = some 0x22 then (rawString rest).shift 1 else done 0 .other
    | [] => done 0 .other
  | t => if t.isOperator then operator lexicon t first rest else done 0 t

/-- The token at the start of the symbols. At the end there is the token that says so. -/
def token (lexicon : Lexicon) : List Symbol → Scan
  | [] => done 0 .eof
  | .malformed _ :: _ => fail 0 .malformed
  | .codePoint v bs :: rest => (tail lexicon (.codePoint v bs) v rest).shift 1

/-- A token that is found before the end takes at least one symbol. -/
theorem count_token_pos {lexicon : Lexicon} {symbols : List Symbol} {t : Token}
    (h : (token lexicon symbols).outcome = .ok t) (hne : symbols ≠ []) :
    0 < (token lexicon symbols).count := by
  match symbols with
  | [] => exact absurd rfl hne
  | .malformed _ :: _ => simp [token, fail] at h
  | .codePoint v bs :: rest => exact Nat.add_pos_left Nat.one_pos _

end Scan

end ScriptGraph
