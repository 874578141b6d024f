import ScriptGraph.Number.Basic

/-!
# Reading numbers

A numeral is an optional sign, digits with an optional point and an optional exponent, or one of the
words for infinity and for no number in any case. Its value is correctly rounded.
-/

namespace ScriptGraph.Number

/-- The value of decimal digits. -/
def digitsValue (digits : List Char) : Nat :=
  digits.foldl (fun n c => 10 * n + (c.toNat - '0'.toNat)) 0

/-- The signed number nearest to the value of some digits times `10 ^ exponent`. Magnitudes far
outside the range of finite numbers give infinity or zero at once. -/
def ofDigits (negative : Bool) (digits : List Char) (exponent : Int) : Number :=
  let digits := digits.dropWhile (· == '0')
  let point := (digits.length : Int) + exponent
  if digits.isEmpty ∨ point < -400 then zero negative
  else if 400 < point then infinity negative
  else
    let coefficient := digitsValue digits
    ofRatio negative (coefficient * Nat.pow 10 exponent.toNat) (Nat.pow 10 (-exponent).toNat)

/-- A sign, if there is one, and the rest. -/
def splitSign : List Char → Bool × List Char
  | '-' :: cs => (true, cs)
  | '+' :: cs => (false, cs)
  | cs => (false, cs)

/-- The exponent part of a numeral, which is absent or takes the whole rest. -/
def readExponent? : List Char → Option Int
  | [] => some 0
  | c :: cs =>
    if c = 'e' ∨ c = 'E' then
      let (negative, digits) := splitSign cs
      if digits ≠ [] ∧ digits.all Char.isDigit then
        let n : Int := digitsValue digits
        some (if negative then -n else n)
      else none
    else none

/-- The fraction digits at the start, if a point introduces them, and the rest. -/
def splitFraction : List Char → List Char × List Char
  | '.' :: cs => (cs.takeWhile Char.isDigit, cs.dropWhile Char.isDigit)
  | cs => ([], cs)

/-- The number that an unsigned numeral denotes. -/
def readUnsigned? (negative : Bool) (cs : List Char) : Option Number :=
  match cs.map Char.toLower with
  | ['i', 'n', 'f'] | ['i', 'n', 'f', 'i', 'n', 'i', 't', 'y'] => some (infinity negative)
  | ['n', 'a', 'n'] => some nan
  | _ =>
    let whole := cs.takeWhile Char.isDigit
    let (fraction, rest) := splitFraction (cs.dropWhile Char.isDigit)
    if whole = [] ∧ fraction = [] then none
    else
      (readExponent? rest).map fun e =>
        ofDigits negative (whole ++ fraction) (e - fraction.length)

/-- The number that a numeral denotes, or nothing if the text is no numeral. -/
def read? (cs : List Char) : Option Number :=
  let (negative, rest) := splitSign cs
  readUnsigned? negative rest

end ScriptGraph.Number
