import CalcLang.Text.Upcase
import CalcLang.Token.Kind

/-!
# Classification of words

A word is first looked up among the fixed spellings and then held against the shapes of literals and
variables.  Both look at the upper-cased word, so case never matters.

* `Word.classify`: the kind of an upper-cased word.
* `Word.kind?`: the kind of a word as it stands in a program.
-/

namespace CalcLang.Word

/-! ### Shapes -/

/-- A character between two apostrophes. -/
def isCharLiteral : List Char → Bool
  | [first, _, last] => first == '\'' && last == '\''
  | _ => false

/-- A text between two quotes, which must be two characters. -/
def isStringLiteral : List Char → Bool
  | '"' :: rest => rest.getLast? == some '"'
  | _ => false

/-- One or more decimal digits. -/
def isDigits (word : List Char) : Bool :=
  !word.isEmpty && word.all Char.isDigit

/-- Decimal digits, a point, and perhaps more digits. -/
def isFloatLiteral (word : List Char) : Bool :=
  match word.dropWhile (· != '.') with
  | _ :: fraction =>
    isDigits (word.takeWhile (· != '.')) && fraction.all Char.isDigit
  | [] => false

/-- Decimal digits and the letters `A` through `F`. -/
def isHexDigit (c : Char) : Bool :=
  c.isDigit || ('A' ≤ c && c ≤ 'F')

/-- The binary digits. -/
def isBinDigit (c : Char) : Bool :=
  c == '0' || c == '1'

/-- A zero, a given letter, and then one or more digits. -/
def isMarkedLiteral (mark : Char) (isDigit : Char → Bool) : List Char → Bool
  | '0' :: letter :: digits => letter == mark && !digits.isEmpty && digits.all isDigit
  | _ => false

/-- The letters `A` through `Z`. -/
def isLetter (c : Char) : Bool :=
  'A' ≤ c && c ≤ 'Z'

/-- A letter, perhaps followed by a digit. -/
def isScalar : List Char → Bool
  | [letter] => isLetter letter
  | [letter, digit] => isLetter letter && digit.isDigit
  | _ => false

/-- A variable name behind the array mark. -/
def isArray : List Char → Bool
  | '@' :: name => isScalar name
  | _ => false

/-! ### Classification -/

/-- The kind of a word by its shape. -/
def shape? (word : List Char) : Option Kind :=
  if isCharLiteral word then some (.literal .char)
  else if isStringLiteral word then some (.literal .string)
  else if isDigits word then some (.literal .int)
  else if isFloatLiteral word then some (.literal .float)
  else if isMarkedLiteral 'X' isHexDigit word then some (.literal .hex)
  else if isMarkedLiteral 'B' isBinDigit word then some (.literal .bin)
  else if isScalar word then some (.var .scalar)
  else if isArray word then some (.var .array)
  else none

/-- The kind of an upper-cased word. -/
def classify (word : List Char) : Option Kind :=
  (Kind.ofSpelling? (String.ofList word)).or (shape? word)

/-- The kind of a word as it stands in a program. -/
def kind? (word : List Char) : Option Kind :=
  classify (Text.upcase word)

end CalcLang.Word
