import CalcLang.Decimal.Read
import CalcLang.Token.Basic
import CalcLang.Value.Basic

/-!
# Values of literals

An integer literal, in whatever base, has the smallest integer type that holds it.  A literal with a
point is a real number of double precision.
-/

namespace CalcLang

/-- A text without its first bytes, as many as given; nothing if they do not make whole
    characters. -/
def dropBytes? : Nat → List Char → Option (List Char)
  | 0, text => some text
  | _ + 1, [] => none
  | count + 1, c :: rest =>
    if c.utf8Size ≤ count + 1 then dropBytes? (count + 1 - c.utf8Size) rest else none

namespace Value

/-- The value of an integer: 32 bits wide if it fits, 64 bits wide otherwise. -/
def ofInt (n : Int) : Value :=
  if Int32.minValue.toInt ≤ n ∧ n ≤ Int32.maxValue.toInt then int32 (Int32.ofInt n)
  else int64 (Int64.ofInt n)

/-- The value of a literal with a given text.  Literals in base sixteen and two start with a mark of
    two bytes. -/
def ofLiteralText? (literal : Literal) (text : List Char) : Option Value :=
  match literal with
  | .int => (readInteger? 10 text).map ofInt
  | .hex => ((dropBytes? 2 text).bind (readInteger? 16)).map ofInt
  | .bin => ((dropBytes? 2 text).bind (readInteger? 2)).map ofInt
  | .float => (readReal? text).map real64
  | .char | .string => none

/-- The value of a token, if it is a numeric literal. -/
def ofToken? (token : Token) : Option Value :=
  match token.kind, token.value with
  | .literal literal, some text => ofLiteralText? literal text.toList
  | _, _ => none

end Value

end CalcLang
