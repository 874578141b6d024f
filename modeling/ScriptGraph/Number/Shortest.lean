import ScriptGraph.Number.Basic

/-!
# Shortest decimals

The decimal text of a finite number has the fewest digits that read back as the same number, and
among those the digits nearest to it.
-/

namespace ScriptGraph

/-- A decimal numeral: the coefficient times a power of ten. -/
structure Decimal where
  coefficient : Nat
  exponent : Int
deriving DecidableEq, Repr

namespace Decimal

/-- The numeral without the last zeros of its coefficient, up to `n` of them. -/
def trim : Nat → Decimal → Decimal
  | 0, d => d
  | n + 1, d =>
    if d.coefficient ≠ 0 ∧ d.coefficient % 10 = 0 then
      trim n ⟨d.coefficient / 10, d.exponent + 1⟩
    else d

end Decimal

/-- Where a value half way between two decimals goes: to the larger of them, or to the one with an
even last digit. -/
inductive Tie where
  | up
  | even
deriving DecidableEq, Repr

/-- Whether a fraction is nearer to the integer above it than to the one below. -/
def Tie.roundsUp (tie : Tie) (num den : Nat) : Bool :=
  let double := 2 * (num % den)
  if double = den then
    match tie with
    | .up => true
    | .even => num / den % 2 = 1
  else den < double

namespace Number

/-- A power of ten with an integer exponent, as a fraction. -/
def tenPower (e : Int) : Nat × Nat := (Nat.pow 10 e.toNat, Nat.pow 10 (-e).toNat)

/-- Whether a decimal numeral reads as the magnitude of a rank: it lies between the midpoints to the
neighbouring magnitudes, where a midpoint belongs to an even significand. -/
def readsAs (rank : Nat) (d : Decimal) : Bool :=
  let (n, m) := tenPower d.exponent
  let value := d.coefficient * n * (2 * unitsInOne)
  let low := (units (rank - 1) + units rank) * m
  let high := (units rank + units (rank + 1)) * m
  if rank % 2 = 0 then low ≤ value && value ≤ high else low < value && value < high

/-- The number of decimal digits before the point of the magnitude of a rank, or minus the number of
zeros after it. The binary logarithm leaves two choices; the factor between the logarithms is exact
enough for all magnitudes. -/
def decimalPoint (rank : Nat) : Int :=
  let binary : Int := (units rank).log2 - 1074
  let low := binary * 78913 / 0x40000 + 1
  let (n, m) := tenPower low
  if units rank * m < unitsInOne * n then low else low + 1

/-- The numeral of `digits` digits that reads back as the magnitude of a rank, if there is one. Of
two, the nearer. -/
def numeralOf? (tie : Tie) (rank digits : Nat) : Option Decimal :=
  let e := decimalPoint rank - digits
  let (n, m) := tenPower e
  let num := units rank * m
  let den := unitsInOne * n
  let c := num / den
  let below : Decimal := ⟨c, e⟩
  let above : Decimal := ⟨c + 1, e⟩
  match readsAs rank below, readsAs rank above with
  | true, true => some (if tie.roundsUp num den then above else below)
  | true, false => some below
  | false, true => some above
  | false, false => none

/-- The shortest numeral that reads back as the magnitude of a rank. Seventeen digits always
suffice. -/
def shortest (tie : Tie) (rank : Nat) : Decimal :=
  if rank = 0 then ⟨0, 0⟩
  else
    match (List.range 17).findSome? fun i => numeralOf? tie rank (i + 1) with
    | some d => d.trim 400
    | none => ⟨units rank * Nat.pow 5 1074, -1074⟩

end Number

end ScriptGraph
