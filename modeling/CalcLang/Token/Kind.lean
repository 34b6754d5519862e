import CalcLang.Token.Vocabulary

/-!
# Token kinds

`Kind` is the closed set of token categories.  Phrases are kinds too: no word of a program has one,
they tag the nodes that stand for a part of the program as a whole.

* `Kind.name`: the tag of a kind, different for different kinds.
* `Kind.symbol?`: the spelling of a kind, where it is fixed.
* `Kind.ofSpelling?`: the kind of a fixed spelling, alternate spellings included.
-/

namespace CalcLang

/-- The category of a token. -/
inductive Kind where
  /-- A declared type. -/
  | dataType (type : DataType)
  /-- The arrow `->`. -/
  | assign
  /-- An arithmetic operator. -/
  | operator (operator : Operator)
  /-- The opening parenthesis. -/
  | openParen
  /-- The closing parenthesis. -/
  | closeParen
  /-- A keyword of the statement grammar. -/
  | keyword (keyword : Keyword)
  /-- A comparison. -/
  | comparison (comparison : Comparison)
  /-- A logical connective. -/
  | connective (connective : Connective)
  /-- A literal. -/
  | literal (literal : Literal)
  /-- A variable. -/
  | var (sort : Variable)
  /-- A trigonometric function. -/
  | function (function : TrigFunction)
  /-- The comma. -/
  | comma
  /-- The end of a physical line. -/
  | lineBreak
  /-- The end of the program. -/
  | endOfFile
  /-- A part of a program without a word of its own. -/
  | phrase (phrase : Phrase)
  deriving DecidableEq, Repr

namespace Kind

/-- Every kind. -/
def all : List Kind :=
  DataType.all.map dataType ++ [assign] ++ Operator.all.map operator ++ [openParen, closeParen] ++
  Keyword.all.map keyword ++ Comparison.all.map comparison ++ Connective.all.map connective ++
  Literal.all.map literal ++ Variable.all.map var ++ TrigFunction.all.map function ++
  [comma, lineBreak, endOfFile] ++ Phrase.all.map phrase

/-! ### Text -/

/-- Tag of a kind in listings and messages. -/
def name : Kind → String
  | dataType t => t.name
  | assign => "ASSIGN"
  | operator o => o.name
  | openParen => "L_PAREN"
  | closeParen => "R_PAREN"
  | keyword k => k.name
  | comparison c => c.name
  | connective c => c.name
  | literal l => l.name
  | var v => v.name
  | function f => f.name
  | comma => "COMMA"
  | lineBreak => "LINE_BREAK"
  | endOfFile => "EOF"
  | phrase p => p.name

/-- Spelling of a kind in a program, for the kinds whose spelling is fixed. -/
def symbol? : Kind → Option String
  | dataType t => some t.name
  | assign => some "->"
  | operator o => some o.symbol
  | openParen => some "("
  | closeParen => some ")"
  | keyword k => some k.symbol
  | comparison c => some c.symbol
  | connective c => some c.symbol
  | function f => some f.name
  | comma => some ","
  | literal _ | var _ | lineBreak | endOfFile | phrase _ => none

/-- The kind with a given tag. -/
def ofName? (tag : String) : Option Kind :=
  all.find? (·.name == tag)

/-- Spellings that are read but never printed. -/
def alternateSpellings : List (String × Kind) :=
  [("LABEL", keyword .label), ("DISP_STR", keyword .dispStr)]

/-- The kind that a fixed spelling stands for. -/
def ofSpelling? (spelling : String) : Option Kind :=
  (all.find? (·.symbol? == some spelling)).or (alternateSpellings.lookup spelling)

/-! ### Families -/

/-- Literals and variables keep the text they were written with. -/
def carriesText : Kind → Bool
  | literal _ | var _ => true
  | _ => false

/-- Kinds that may stand alone as an arithmetic operand. -/
def isNumeral : Kind → Bool
  | literal l => l.isNumeric
  | var _ => true
  | _ => false

/-- Literals of any sort. -/
def isLiteral : Kind → Bool
  | literal _ => true
  | _ => false

/-- Scalar and array variables. -/
def isVariable : Kind → Bool
  | var _ => true
  | _ => false

/-- The data type a kind names. -/
def dataType? : Kind → Option DataType
  | dataType t => some t
  | _ => none

/-- Kinds that name a data type. -/
def isDataType : Kind → Bool
  | dataType _ => true
  | _ => false

/-- Arithmetic operators. -/
def isOperator : Kind → Bool
  | operator _ => true
  | _ => false

/-- Comparisons. -/
def isComparison : Kind → Bool
  | comparison _ => true
  | _ => false

/-- Logical connectives. -/
def isConnective : Kind → Bool
  | connective _ => true
  | _ => false

/-- Trigonometric functions. -/
def isFunction : Kind → Bool
  | function _ => true
  | _ => false

/-- Kinds that end a physical line: a line break, or the end of the program. -/
def endsLine : Kind → Bool
  | lineBreak | endOfFile => true
  | _ => false

end Kind

end CalcLang
