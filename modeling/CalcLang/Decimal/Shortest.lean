import CalcLang.Decimal.Binary

/-!
# Shortest decimals

A floating-point number is written with as few digits as read back to the same number.  The decimals
that read back are those between the two midpoints to its neighbours, the midpoints included if the
significand is even.  All comparisons are exact, on natural numbers.

* `BinaryNumber.readsBack`: a decimal lies in that interval.
* `BinaryNumber.shortest`: the point of the coarsest decimal grid that reads back, and of two such
  points the nearer one; from the exact middle the larger one is taken.
-/

namespace CalcLang

/-- The decimal `digits * 10 ^ exponent`. -/
structure DecimalNumber where
  /-- The digits, as a number. -/
  digits : Nat
  /-- The power of ten. -/
  exponent : Int
  deriving DecidableEq, Repr

namespace BinaryNumber

/-! ### Exact comparison

The ends of the interval and the number itself are whole multiples of a quarter of the last bit of
the significand.  Against a grid of step `10 ^ exponent` they are compared as fractions over one
denominator. -/

/-- The number, counted in quarters of the last bit of its significand. -/
def quarters (x : BinaryNumber) : Nat := 4 * x.significand

/-- The lower end of the interval, in the same unit. -/
def lowerEnd (x : BinaryNumber) : Nat := x.quarters - if x.narrowBelow then 1 else 2

/-- The upper end of the interval, in the same unit. -/
def upperEnd (x : BinaryNumber) : Nat := x.quarters + 2

/-- A count of quarters over a grid step: the numerator. -/
def numerator (x : BinaryNumber) (exponent : Int) (count : Nat) : Nat :=
  count * Nat.pow 2 (x.exponent - 2).toNat * Nat.pow 10 (-exponent).toNat

/-- A count of quarters over a grid step: the denominator. -/
def denominator (x : BinaryNumber) (exponent : Int) : Nat :=
  Nat.pow 2 (2 - x.exponent).toNat * Nat.pow 10 exponent.toNat

/-- A decimal lies among the reals that round to the number. -/
def readsBack (x : BinaryNumber) (d : DecimalNumber) : Bool :=
  let point := d.digits * x.denominator d.exponent
  let lower := x.numerator d.exponent x.lowerEnd
  let upper := x.numerator d.exponent x.upperEnd
  if x.significand % 2 = 0 then lower ≤ point && point ≤ upper else lower < point && point < upper

/-! ### Search -/

/-- The point of a grid that stands for the number, if one reads back.  Only the two neighbours of
    the number on the grid can be meant. -/
def onGrid? (x : BinaryNumber) (exponent : Int) : Option DecimalNumber :=
  let numerator := x.numerator exponent x.quarters
  let denominator := x.denominator exponent
  let below : DecimalNumber := ⟨numerator / denominator, exponent⟩
  let above : DecimalNumber := ⟨numerator / denominator + 1, exponent⟩
  match x.readsBack below, x.readsBack above with
  | true, true => if 2 * (numerator % denominator) < denominator then below else above
  | true, false => below
  | false, true => above
  | false, false => none

/-- The first hit on a given number of grids, from a coarse one to finer ones. -/
def searchGrids (x : BinaryNumber) : Nat → Int → Option DecimalNumber
  | 0, _ => none
  | rounds + 1, exponent => (x.onGrid? exponent).or (searchGrids x rounds (exponent - 1))

/-- A power of ten above the upper end of the interval of a positive number.  The factor is the
    decimal logarithm of two, rounded up. -/
def topExponent (x : BinaryNumber) : Int :=
  ((x.significand.log2 : Int) + 1 + x.exponent) * 30103 / 100000 + 1

/-- The decimal with the same value. -/
def exactDecimal (x : BinaryNumber) : DecimalNumber :=
  if 0 ≤ x.exponent then
    ⟨x.significand * Nat.pow 2 x.exponent.toNat, 0⟩
  else
    ⟨x.significand * Nat.pow 5 (-x.exponent).toNat, x.exponent⟩

/-- The shortest decimal that reads back.  A grid with seventeen digits always has one, so that the
    search goes on to the nineteenth step below the top is more than enough. -/
def shortest (x : BinaryNumber) : DecimalNumber :=
  if x.significand = 0 then
    ⟨0, 0⟩
  else
    (x.searchGrids 20 x.topExponent).getD x.exactDecimal

end BinaryNumber

/-! ### Text -/

namespace DecimalNumber

/-- A decimal written out, without exponent and without needless zeros after the point. -/
def positional (d : DecimalNumber) : String :=
  let digits := Nat.toDigits 10 d.digits
  if 0 ≤ d.exponent then
    String.ofList (if d.digits = 0 then digits else digits ++ List.replicate d.exponent.toNat '0')
  else
    let places := (-d.exponent).toNat
    let padded := List.replicate (places + 1 - digits.length) '0' ++ digits
    String.ofList
      (padded.take (padded.length - places) ++ '.' :: padded.drop (padded.length - places))

end DecimalNumber

/-- A floating-point number written with its shortest digits. -/
def FloatFormat.text (format : FloatFormat) (bits : Nat) : String :=
  let sign := if format.isNegative bits then "-" else ""
  match format.magnitude bits with
  | .notANumber => "NaN"
  | .infinite => sign ++ "inf"
  | .finite number => sign ++ number.shortest.positional

end CalcLang
