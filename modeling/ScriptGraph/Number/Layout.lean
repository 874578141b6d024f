import ScriptGraph.Number.Shortest

/-!
# Layouts of decimals

How the digits of a numeral are written. A layout says for which decimal exponents the point is
placed among the digits; beyond those the first digit stands before the point and the exponent is
written out.
-/

namespace ScriptGraph

/-- The choices of a written form for decimals. -/
structure Layout where
  /-- Whether a numeral whose first digit has this decimal exponent is written positionally. -/
  positional : Int → Bool
  /-- Whether a positional numeral keeps a point and a zero if it has no fraction. -/
  keepsFraction : Bool
  /-- Which of two equally near shortest numerals is written. -/
  tie : Tie

namespace Layout

/-- Every numeral is written positionally, an integer without a point. -/
def plain : Layout := ⟨fun _ => true, false, .up⟩

/-- Numerals of moderate size are written positionally and always with a fraction. -/
def interchange : Layout := ⟨fun e => -5 ≤ e && e ≤ 15, true, .even⟩

private def zeros (n : Nat) : String := String.ofList (List.replicate n '0')

/-- Digits with a point after the first `point` of them, zeros filling the gap on either side. -/
def positionalText (keepsFraction : Bool) (digits : List Char) (point : Int) : String :=
  if point ≤ 0 then "0." ++ zeros (-point).toNat ++ String.ofList digits
  else
    let whole := String.ofList (digits.take point.toNat) ++ zeros (point.toNat - digits.length)
    match digits.drop point.toNat with
    | [] => if keepsFraction then whole ++ ".0" else whole
    | fraction => whole ++ "." ++ String.ofList fraction

/-- Digits with a point after the first, and the exponent with its sign. -/
def exponentText (digits : List Char) (exponent : Int) : String :=
  let whole := String.ofList (digits.take 1)
  let fraction :=
    match digits.drop 1 with
    | [] => ""
    | rest => "." ++ String.ofList rest
  let sign := if exponent < 0 then "-" else "+"
  whole ++ fraction ++ "e" ++ sign ++ toString exponent.natAbs

/-- The written form of a numeral. -/
def render (layout : Layout) (d : Decimal) : String :=
  let digits := Nat.toDigits 10 d.coefficient
  let point := d.exponent + digits.length
  if layout.positional (point - 1) then positionalText layout.keepsFraction digits point
  else exponentText digits (point - 1)

end Layout

namespace Number

/-- The written form of a magnitude with its sign. -/
def renderRank (layout : Layout) (negative : Bool) (rank : Nat) : String :=
  (if negative then "-" else "") ++ layout.render (shortest layout.tie rank)

/-- The text of a number for readers. -/
def render : Number → String
  | nan => "NaN"
  | ranked negative r =>
    if r.val = infinityRank then (if negative then "-inf" else "inf")
    else renderRank .plain negative r.val

end Number

end ScriptGraph
