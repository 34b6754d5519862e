/-!
# Binary floating-point numbers

The exact value of a floating-point number, taken from its bits.  A `FloatFormat` says how the bits
are divided; the bits of a finite number decode to a significand and a power of two.
-/

namespace CalcLang

/-- How the bits of a floating-point number are divided, below its sign bit. -/
structure FloatFormat where
  /-- Number of bits of the exponent. -/
  exponentBits : Nat
  /-- Number of bits of the fraction. -/
  fractionBits : Nat
  deriving DecidableEq, Repr

namespace FloatFormat

/-- Single precision. -/
def single : FloatFormat := ⟨8, 23⟩

/-- Double precision. -/
def double : FloatFormat := ⟨11, 52⟩

end FloatFormat

/-- The magnitude `significand * 2 ^ exponent` of a finite floating-point number. -/
structure BinaryNumber where
  /-- The significand. -/
  significand : Nat
  /-- The power of two. -/
  exponent : Int
  /-- The next smaller number is half as far away as the next larger one. -/
  narrowBelow : Bool
  deriving DecidableEq, Repr

/-- What the bits of a floating-point number stand for, its sign aside. -/
inductive Magnitude where
  | finite (number : BinaryNumber)
  | infinite
  | notANumber
  deriving DecidableEq, Repr

namespace FloatFormat

/-- The sign bit. -/
def isNegative (format : FloatFormat) (bits : Nat) : Bool :=
  bits.testBit (format.exponentBits + format.fractionBits)

/-- The magnitude that the bits below the sign stand for. -/
def magnitude (format : FloatFormat) (bits : Nat) : Magnitude :=
  let unit := Nat.pow 2 format.fractionBits
  let fraction := bits % unit
  let biased := bits / unit % Nat.pow 2 format.exponentBits
  -- the exponent of the last bit of the smallest numbers
  let least : Int := 2 - Nat.pow 2 (format.exponentBits - 1) - format.fractionBits
  if biased = Nat.pow 2 format.exponentBits - 1 then
    if fraction = 0 then .infinite else .notANumber
  else if biased = 0 then
    .finite ⟨fraction, least, false⟩
  else
    .finite ⟨unit + fraction, least + (biased - 1),
      fraction == 0 && decide (1 < biased)⟩

end FloatFormat

end CalcLang
