import CalcLang.DataType

/-!
# Vocabulary

The families of words the language knows, one enumeration per family.  Each word has a *name*, the
tag that stands for it in tree listings and messages, and, where its spelling is fixed, a *symbol*,
the text that stands for it in a program.
-/

namespace CalcLang

/-! ### Arithmetic -/

/-- A binary arithmetic operator. -/
inductive Operator where
  | plus
  | minus
  | times
  | divide
  deriving DecidableEq, Repr

namespace Operator

/-- Every operator. -/
def all : List Operator := [plus, minus, times, divide]

/-- Tag in listings. -/
def name : Operator → String
  | plus => "PLUS"
  | minus => "MINUS"
  | times => "MUL"
  | divide => "DIV"

/-- Spelling in a program. -/
def symbol : Operator → String
  | plus => "+"
  | minus => "-"
  | times => "*"
  | divide => "/"

end Operator

/-- A trigonometric function. -/
inductive TrigFunction where
  | sin
  | cos
  | tan
  | cot
  | sec
  | csc
  | arcsin
  | arccos
  | arctan
  | arccot
  | arcsec
  | arccsc
  deriving DecidableEq, Repr

namespace TrigFunction

/-- Every function. -/
def all : List TrigFunction :=
  [sin, cos, tan, cot, sec, csc, arcsin, arccos, arctan, arccot, arcsec, arccsc]

/-- Tag in listings and spelling in a program. -/
def name : TrigFunction → String
  | sin => "SIN"
  | cos => "COS"
  | tan => "TAN"
  | cot => "COT"
  | sec => "SEC"
  | csc => "CSC"
  | arcsin => "ARCSIN"
  | arccos => "ARCCOS"
  | arctan => "ARCTAN"
  | arccot => "ARCCOT"
  | arcsec => "ARCSEC"
  | arccsc => "ARCCSC"

end TrigFunction

/-! ### Conditions -/

/-- A comparison of two expressions. -/
inductive Comparison where
  | greater
  | less
  | greaterEqual
  | lessEqual
  | equal
  | notEqual
  deriving DecidableEq, Repr

namespace Comparison

/-- Every comparison. -/
def all : List Comparison := [greater, less, greaterEqual, lessEqual, equal, notEqual]

/-- Tag in listings. -/
def name : Comparison → String
  | greater => "GREATER_THAN"
  | less => "LESS_THAN"
  | greaterEqual => "GE_THAN"
  | lessEqual => "LE_THAN"
  | equal => "EQUAL_TO"
  | notEqual => "NOT_EQUAL_TO"

/-- Spelling in a program. -/
def symbol : Comparison → String
  | greater => ">"
  | less => "<"
  | greaterEqual => ">="
  | lessEqual => "<="
  | equal => "=="
  | notEqual => "!="

end Comparison

/-- A logical connective.  All but `not` join two conditions. -/
inductive Connective where
  | and
  | or
  | not
  | nand
  | xor
  | nor
  deriving DecidableEq, Repr

namespace Connective

/-- Every connective. -/
def all : List Connective := [and, or, not, nand, xor, nor]

/-- Spelling in a program. -/
def symbol : Connective → String
  | and => "AND"
  | or => "OR"
  | not => "NOT"
  | nand => "NAND"
  | xor => "XOR"
  | nor => "NOR"

/-- Tag in listings. -/
def name (connective : Connective) : String :=
  "LOGICAL_" ++ connective.symbol

end Connective

/-! ### Statements -/

/-- A word that opens or divides a statement. -/
inductive Keyword where
  | ifWord
  | thenWord
  | elseWord
  | endWord
  | label
  | goto
  | program
  | version
  | implicit
  | call
  | disp
  | dispStr
  deriving DecidableEq, Repr

namespace Keyword

/-- Every keyword. -/
def all : List Keyword :=
  [ifWord, thenWord, elseWord, endWord, label, goto, program, version, implicit, call, disp,
   dispStr]

/-- Tag in listings. -/
def name : Keyword → String
  | ifWord => "IF"
  | thenWord => "THEN"
  | elseWord => "ELSE"
  | endWord => "END"
  | label => "LABEL"
  | goto => "GOTO"
  | program => "PROGRAM"
  | version => "VERSION"
  | implicit => "IMPLICIT"
  | call => "CALL"
  | disp => "DISP"
  | dispStr => "DISP_STR"

/-- Spelling in a program.  `LABEL` and `DISP_STR` have a shorter spelling, which is the one that
    is printed. -/
def symbol : Keyword → String
  | label => "LBL"
  | dispStr => "DISPSTR"
  | keyword => keyword.name

end Keyword

/-! ### Words with a text of their own -/

/-- A literal, whose text is its value. -/
inductive Literal where
  | char
  | string
  | int
  | float
  | hex
  | bin
  deriving DecidableEq, Repr

namespace Literal

/-- Every sort of literal. -/
def all : List Literal := [char, string, int, float, hex, bin]

/-- Tag in listings. -/
def name : Literal → String
  | char => "CHAR_LIT"
  | string => "STR_LIT"
  | int => "INT_LIT"
  | float => "FLOAT_LIT"
  | hex => "HEX_LIT"
  | bin => "BIN_LIT"

/-- Literals that denote a number. -/
def isNumeric : Literal → Bool
  | int | float | hex | bin => true
  | char | string => false

end Literal

/-- A variable name, with or without the array mark `@`. -/
inductive Variable where
  | scalar
  | array
  deriving DecidableEq, Repr

namespace Variable

/-- Both sorts of variable. -/
def all : List Variable := [scalar, array]

/-- Tag in listings. -/
def name : Variable → String
  | scalar => "VAR"
  | array => "ARRAY_VAR"

end Variable

/-! ### Phrases -/

/-- A part of a program that has a node of its own but no word in the text. -/
inductive Phrase where
  | expr
  | prog
  | boolExpr
  | logicExpr
  | block
  deriving DecidableEq, Repr

namespace Phrase

/-- Every phrase. -/
def all : List Phrase := [expr, prog, boolExpr, logicExpr, block]

/-- Tag in listings. -/
def name : Phrase → String
  | expr => "EXPR"
  | prog => "PROG"
  | boolExpr => "BOOL_EXPR"
  | logicExpr => "LOGIC_EXPR"
  | block => "BLOCK"

end Phrase

end CalcLang
