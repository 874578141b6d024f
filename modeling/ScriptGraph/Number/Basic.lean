/-!
# Numbers

The numbers of the language are the binary floating-point numbers of 53 bits of precision, as data:
one value that is not a number, and signed magnitudes. The magnitudes are numbered by their order
(`rank`): rank zero is zero, each next rank is the next larger magnitude, and the last one is
infinity. Neighbouring ranks below `2 ^ 53` are `2 ^ -1074` apart, and the distance doubles with
every further `2 ^ 52` ranks.
-/

namespace ScriptGraph

/-- The number of ranks over which the distance of neighbours stays the same, `2 ^ 52`. -/
def binade : Nat := 0x10000000000000

/-- The rank of infinity. -/
def infinityRank : Nat := 0x7FF * binade

/-- A binary floating-point number. -/
inductive Number where
  | nan
  | ranked (negative : Bool) (rank : Fin (infinityRank + 1))
deriving DecidableEq

namespace Number

/-! ### Magnitudes by rank -/

/-- The significand of the magnitude of a rank. -/
def significand (rank : Nat) : Nat := if rank < binade then rank else binade + rank % binade

/-- The binary exponent of the magnitude of a rank, counted from `-1074`. -/
def scale (rank : Nat) : Nat := rank / binade - 1

/-- The magnitude of a rank in units of `2 ^ -1074`. For the rank of infinity this is the magnitude
that would follow the largest finite one. -/
def units (rank : Nat) : Nat := significand rank * Nat.pow 2 (scale rank)

/-- The number of units in one. -/
def unitsInOne : Nat := Nat.pow 2 1074

/-- The quotient rounded to the nearest integer, a half to the even neighbour. -/
def roundHalfEven (n d : Nat) : Nat :=
  let q := n / d
  let r := n % d
  if 2 * r < d then q
  else if d < 2 * r then q + 1
  else if q % 2 = 0 then q else q + 1

/-- The rank of the magnitude nearest to `n / d`, a tie to the even significand. A magnitude beyond
the largest finite one rounds to infinity. -/
def nearestRank (n d : Nat) : Nat :=
  let n := n * unitsInOne
  let s := (n / d).log2 - 52
  min (s * binade + roundHalfEven n (d * Nat.pow 2 s)) infinityRank

theorem nearestRank_lt (n d : Nat) : nearestRank n d < infinityRank + 1 := by
  exact Nat.lt_succ_of_le (Nat.min_le_right _ _)

/-! ### Construction -/

/-- The signed number nearest to `n / d`. -/
def ofRatio (negative : Bool) (n d : Nat) : Number :=
  .ranked negative ⟨nearestRank n d, nearestRank_lt n d⟩

/-- The number nearest to a natural number. -/
def ofNat (n : Nat) : Number := ofRatio false n 1

/-- Zero with a sign. -/
def zero (negative : Bool) : Number := .ranked negative ⟨0, by decide⟩

/-- Infinity with a sign. -/
def infinity (negative : Bool) : Number := .ranked negative ⟨infinityRank, by decide⟩

/-- The number with the opposite sign. -/
def neg : Number → Number
  | nan => nan
  | ranked negative r => ranked (!negative) r

/-- The product of two magnitudes, by rank. -/
def mulRank (a b : Nat) : Nat := nearestRank (units a * units b) (unitsInOne * unitsInOne)

/-- The quotient of two magnitudes, by rank. -/
def divRank (a b : Nat) : Nat := nearestRank (units a) (units b)

/-! ### Observation -/

/-- Whether a number is neither infinite nor the value that is no number. -/
def isFinite : Number → Bool
  | nan => false
  | ranked _ r => r.val < infinityRank

/-- Numeric equality: the two zeros are equal, and what is no number equals nothing. -/
def equal : Number → Number → Bool
  | ranked s a, ranked t b => a == b && (s == t || a.val == 0)
  | _, _ => false

instance : BEq Number := ⟨equal⟩

/-- The interchange encoding, unless the value is no number. -/
def bits? : Number → Option Nat
  | nan => none
  | ranked negative r => some (r.val + if negative then 0x8000000000000000 else 0)

end Number

end ScriptGraph
