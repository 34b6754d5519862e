import CalcLang.Value.Basic

/-!
# Arithmetic

Both operands of an operation must have the same type.  Integers wrap around and their quotients are
cut toward zero; reals follow the IEEE rules.  Only an integer division by zero has no result.
-/

namespace CalcLang

/-- Why an operation has no result. -/
inductive ArithmeticError where
  /-- The operands differ in type. -/
  | widthMismatch (left right : DataType)
  /-- An integer is divided by zero. -/
  | divisionByZero
  deriving DecidableEq, Repr

/-- Wording of an arithmetic error. -/
def ArithmeticError.message : ArithmeticError → String
  | .widthMismatch left right => "operand width mismatch: " ++ left.name ++ " and " ++ right.name
  | .divisionByZero => "integer division by zero"

namespace Value

/-- Operands of different types. -/
def mismatch (left right : Value) : Except ArithmeticError Value :=
  .error (.widthMismatch left.dataType right.dataType)

/-- Sum. -/
def add : Value → Value → Except ArithmeticError Value
  | int32 a, int32 b => .ok (int32 (a + b))
  | int64 a, int64 b => .ok (int64 (a + b))
  | real32 a, real32 b => .ok (real32 (a + b))
  | real64 a, real64 b => .ok (real64 (a + b))
  | left, right => mismatch left right

/-- Difference. -/
def subtract : Value → Value → Except ArithmeticError Value
  | int32 a, int32 b => .ok (int32 (a - b))
  | int64 a, int64 b => .ok (int64 (a - b))
  | real32 a, real32 b => .ok (real32 (a - b))
  | real64 a, real64 b => .ok (real64 (a - b))
  | left, right => mismatch left right

/-- Product. -/
def multiply : Value → Value → Except ArithmeticError Value
  | int32 a, int32 b => .ok (int32 (a * b))
  | int64 a, int64 b => .ok (int64 (a * b))
  | real32 a, real32 b => .ok (real32 (a * b))
  | real64 a, real64 b => .ok (real64 (a * b))
  | left, right => mismatch left right

/-- Quotient. -/
def divide : Value → Value → Except ArithmeticError Value
  | int32 a, int32 b => if b = 0 then .error .divisionByZero else .ok (int32 (a / b))
  | int64 a, int64 b => if b = 0 then .error .divisionByZero else .ok (int64 (a / b))
  | real32 a, real32 b => .ok (real32 (a / b))
  | real64 a, real64 b => .ok (real64 (a / b))
  | left, right => mismatch left right

/-- The same value with the opposite sign. -/
def negate : Value → Value
  | int32 a => int32 (-a)
  | int64 a => int64 (-a)
  | real32 a => real32 (-a)
  | real64 a => real64 (-a)

end Value

end CalcLang
