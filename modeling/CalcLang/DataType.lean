/-!
# Data types

The five types a declaration can name.  Four of them are numeric; `CHAR8` is for declarations only.
-/

namespace CalcLang

/-- A declared type. -/
inductive DataType where
  | int32
  | int64
  | real32
  | real64
  | char8
  deriving DecidableEq, Repr

namespace DataType

/-- Every data type. -/
def all : List DataType := [int32, int64, real32, real64, char8]

/-- The keyword of a data type, which is also its name in messages. -/
def name : DataType → String
  | int32 => "INT32"
  | int64 => "INT64"
  | real32 => "REAL32"
  | real64 => "REAL64"
  | char8 => "CHAR8"

/-- Storage size in bytes. -/
def size : DataType → Nat
  | int32 | real32 => 4
  | int64 | real64 => 8
  | char8 => 1

/-- The letters that make an undeclared variable an integer, in both cases. -/
def isIntegerInitial (c : Char) : Bool :=
  ('I' ≤ c && c ≤ 'N') || ('i' ≤ c && c ≤ 'n')

/-- The type of an undeclared variable: array marks aside, names that start with `I` through `N`
    are integers and all others are real. -/
def implicitFor (variableName : String) : DataType :=
  match variableName.toList.dropWhile (· == '@') with
  | first :: _ => if isIntegerInitial first then int32 else real32
  | [] => real32

end DataType

end CalcLang
