import ScriptGraph.Json.Fault
import ScriptGraph.Json.Value
import ScriptGraph.Number.Reading

/-!
# Numerals of JSON documents

A numeral is read with best-effort precision: the leading digits that fit a 64-bit word are scaled
by a power of ten in floating-point arithmetic. An integer without a sign that fits such a word is
kept as it is. A numeral too large for a finite number is refused, one too small is zero.
-/

namespace ScriptGraph.Json

/-- The largest 64-bit word. -/
def wordMax : Nat := 0xFFFFFFFFFFFFFFFF

/-- The value of a digit. -/
def digitValue (c : Char) : Nat := c.toNat - '0'.toNat

/-- Appends the leading digits to a significand as long as it fits a word. Returns it with the
number of digits and the rest, which starts with a digit only if that one does not fit. -/
def takeDigits (significand : Nat) : List Char → Nat × Nat × List Char
  | [] => (significand, 0, [])
  | c :: cs =>
    if c.isDigit ∧ significand * 10 + digitValue c ≤ wordMax then
      let (s, n, rest) := takeDigits (significand * 10 + digitValue c) cs
      (s, n + 1, rest)
    else (significand, 0, c :: cs)

/-- The number of leading digits and the rest. -/
def dropDigits (cs : List Char) : Nat × List Char :=
  ((cs.takeWhile Char.isDigit).length, cs.dropWhile Char.isDigit)

/-! ### Scaling -/

/-- The rank of a power of ten. -/
def tenRank (n : Nat) : Nat := Number.nearestRank (Nat.pow 10 n) 1

/-- A magnitude divided by a power of ten, at most `10 ^ 308` at a time. -/
def scaleDown (rank n : Nat) : Nat :=
  if n ≤ 308 then Number.divRank rank (tenRank n)
  else if rank = 0 then 0
  else scaleDown (Number.divRank rank (tenRank 308)) (n - 308)
termination_by n

/-- A magnitude multiplied by a power of ten, if the result is finite. -/
def scaleUp? (rank n : Nat) : Option Nat :=
  if n ≤ 308 then
    let r := Number.mulRank rank (tenRank n)
    if r = infinityRank then none else some r
  else if rank = 0 then some 0
  else none

/-- The signed number of a rank. -/
def signed (negative : Bool) (rank : Nat) : Number :=
  if h : rank < infinityRank + 1 then .ranked negative ⟨rank, h⟩ else .nan

/-- The number of a significand and a decimal exponent. -/
def assemble (negative : Bool) (significand : Nat) (exponent : Int) : Except Fault Number :=
  let rank := Number.nearestRank significand 1
  if 0 ≤ exponent then
    match scaleUp? rank exponent.toNat with
    | some r => .ok (signed negative r)
    | none => .error .malformed
  else .ok (signed negative (scaleDown rank (-exponent).toNat))

/-! ### Parts of a numeral -/

/-- The largest exponent that is computed with. -/
def exponentMax : Nat := 0x7FFFFFFF

/-- The rest of a numeral after the exponent mark. -/
def exponentPart (negative : Bool) (significand : Nat) (exponent : Int) : Reader Number := fun cs =>
  let (below, cs) := Number.splitSign cs
  match cs with
  | [] => .error .incomplete
  | c :: _ =>
    if c.isDigit then do
      let e := Number.digitsValue (cs.takeWhile Char.isDigit)
      let rest := cs.dropWhile Char.isDigit
      if exponentMax < e then
        if significand ≠ 0 ∧ ¬below then .error .malformed
        else return (Number.zero negative, rest)
      else
        let x ← assemble negative significand (if below then exponent - e else exponent + e)
        return (x, rest)
    else .error .malformed

/-- The end of a numeral: an exponent or nothing. -/
def finish (negative : Bool) (significand : Nat) (exponent : Int) : Reader Number
  | 'e' :: cs | 'E' :: cs => exponentPart negative significand exponent cs
  | cs => do return (← assemble negative significand exponent, cs)

/-- The rest of a numeral after the point. -/
def fractionPart (negative : Bool) (significand : Nat) (exponent : Int) : Reader Number := fun cs =>
  let (s, n, rest) := takeDigits significand cs
  let (dropped, rest) := dropDigits rest
  if n = 0 ∧ dropped = 0 then .error (if rest.isEmpty then .incomplete else .malformed)
  else finish negative s (exponent - n) rest

/-- An integer with its sign: a natural number, or the number nearest to it. -/
def integer (negative : Bool) (significand : Nat) : Value :=
  if negative then .number (Number.ofNat significand).neg else .natural significand

/-- The rest of a numeral whose whole part has been read; `dropped` of its digits did not fit. -/
def afterWhole (negative : Bool) (significand dropped : Nat) : Reader Value
  | '.' :: cs => do
    let (x, rest) ← fractionPart negative significand dropped cs
    return (.number x, rest)
  | cs =>
    let marked := cs.head? = some 'e' ∨ cs.head? = some 'E'
    if dropped = 0 ∧ ¬marked then .ok (integer negative significand, cs)
    else do
      let (x, rest) ← finish negative significand dropped cs
      return (.number x, rest)

/-- A numeral after its sign. -/
def numeral (negative : Bool) : Reader Value
  | [] => .error .incomplete
  | '0' :: cs =>
    if cs.head?.any Char.isDigit then .error .malformed else afterWhole negative 0 0 cs
  | c :: cs =>
    if c.isDigit then
      let (s, _, rest) := takeDigits (digitValue c) cs
      let (dropped, rest) := dropDigits rest
      afterWhole negative s dropped rest
    else .error .malformed

/-! ### Numerals that nobody reads -/

/-- The text after the leading digits, of which there has to be one. -/
def skipDigits (cs : List Char) : Except Fault (List Char) :=
  if cs.head?.any Char.isDigit then .ok (cs.dropWhile Char.isDigit) else .error .malformed

/-- The text after an exponent, if there is one. -/
def skipExponent : List Char → Except Fault (List Char)
  | 'e' :: cs | 'E' :: cs => skipDigits (Number.splitSign cs).2
  | cs => .ok cs

/-- The text after a numeral without its sign. Its size does not matter, and a numeral that ends too
early counts as malformed. -/
def skipNumeral (cs : List Char) : Except Fault (List Char) := do
  let rest ←
    match cs with
    | '0' :: rest => if rest.head?.any Char.isDigit then .error .malformed else .ok rest
    | cs => skipDigits cs
  match rest with
  | '.' :: rest => skipExponent (← skipDigits rest)
  | rest => skipExponent rest

end ScriptGraph.Json
