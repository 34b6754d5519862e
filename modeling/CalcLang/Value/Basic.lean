import CalcLang.DataType
import CalcLang.Decimal.Shortest

/-!
# Values

A value is a number of one of the four numeric types.
-/

namespace CalcLang

/-- A number of fixed width. -/
inductive Value where
  | int32 (n : Int32)
  | int64 (n : Int64)
  | real32 (x : Float32)
  | real64 (x : Float)

namespace Value

/-- The type of a value. -/
def dataType : Value → DataType
  | int32 _ => .int32
  | int64 _ => .int64
  | real32 _ => .real32
  | real64 _ => .real64

/-- The zero of a type, if the type is numeric. -/
def zero? : DataType → Option Value
  | .int32 => some (int32 0)
  | .int64 => some (int64 0)
  | .real32 => some (real32 0)
  | .real64 => some (real64 0)
  | .char8 => none

/-- How a value is written: integers in decimal, reals with their shortest digits. -/
def text : Value → String
  | int32 n => toString n.toInt
  | int64 n => toString n.toInt
  | real32 x => FloatFormat.single.text x.toBits.toNat
  | real64 x => FloatFormat.double.text x.toBits.toNat

end Value

end CalcLang
