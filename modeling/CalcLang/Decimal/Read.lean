/-!
# Reading numbers

* `readInteger?`: an integer of 64 bits in some base: a sign or none, then digits.
* `readReal?`: a real number: a sign or none, then digits with a point and an exponent, or one of
  the words `inf`, `infinity` and `nan`.
-/

namespace CalcLang

/-! ### Integers -/

/-- The value of a digit, in bases up to sixteen. -/
def digitValue? (c : Char) : Option Nat :=
  if c.isDigit then some (c.toNat - '0'.toNat)
  else if 'a' ≤ c ∧ c ≤ 'f' then some (c.toNat - 'a'.toNat + 10)
  else if 'A' ≤ c ∧ c ≤ 'F' then some (c.toNat - 'A'.toNat + 10)
  else none

/-- The value of a digit in a given base. -/
def digitIn? (base : Nat) (c : Char) : Option Nat :=
  (digitValue? c).filter (· < base)

/-- The number that digits in some base stand for, behind digits that stand for `value`. -/
def readDigits? (base : Nat) (value : Nat) : List Char → Option Nat
  | [] => some value
  | c :: rest =>
    match digitIn? base c with
    | some digit => readDigits? base (value * base + digit) rest
    | none => none

/-- The number that one or more digits in some base stand for. -/
def readNatural? (base : Nat) (text : List Char) : Option Nat :=
  if text.isEmpty then none else readDigits? base 0 text

/-- A sign, if there is one, and what follows it. -/
def splitSign : List Char → Bool × List Char
  | '-' :: rest => (true, rest)
  | '+' :: rest => (false, rest)
  | text => (false, text)

/-- The integer of 64 bits that a text stands for. -/
def readInteger? (base : Nat) (text : List Char) : Option Int :=
  let (negative, digits) := splitSign text
  (readNatural? base digits).bind fun n =>
    let value : Int := if negative then -n else n
    if Int64.minValue.toInt ≤ value ∧ value ≤ Int64.maxValue.toInt then some value else none

/-! ### Reals -/

/-- An exponent mark and the exponent behind it.  Without a mark nothing may follow. -/
def readExponent? : List Char → Option Int
  | [] => some 0
  | mark :: rest =>
    if mark = 'e' ∨ mark = 'E' then
      let (negative, digits) := splitSign rest
      (readNatural? 10 digits).map fun n => if negative then -n else n
    else
      none

/-- The real number nearest to `digits * 10 ^ exponent`.  Powers of ten that are far out of range are
    decided at once: no real number has a leading digit beyond the four-hundredth place. -/
def nearestReal (digits : Nat) (exponent : Int) : Float :=
  let leading := exponent + (Nat.toDigits 10 digits).length
  if digits = 0 ∨ leading < -400 then
    0
  else if 400 < leading then
    1 / 0
  else
    Float.ofScientific digits (decide (exponent < 0)) exponent.natAbs

/-- The real number that digits with a point and an exponent stand for. -/
def readUnsigned? (text : List Char) : Option Float :=
  let whole := text.takeWhile Char.isDigit
  let afterWhole := text.dropWhile Char.isDigit
  let (fraction, afterFraction) :=
    match afterWhole with
    | '.' :: rest => (rest.takeWhile Char.isDigit, rest.dropWhile Char.isDigit)
    | rest => ([], rest)
  match readNatural? 10 (whole ++ fraction), readExponent? afterFraction with
  | some digits, some exponent => some (nearestReal digits (exponent - fraction.length))
  | _, _ => none

/-- The real number that a text stands for. -/
def readReal? (text : List Char) : Option Float :=
  let (negative, magnitude) := splitSign text
  let word := String.ofList (magnitude.map Char.toLower)
  let unsigned? :=
    if word = "inf" ∨ word = "infinity" then some (1 / 0)
    else if word = "nan" then some (0 / 0)
    else readUnsigned? magnitude
  unsigned?.map fun x => if negative then -x else x

end CalcLang
