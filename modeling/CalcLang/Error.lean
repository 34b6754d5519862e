import CalcLang.Token.Basic

/-!
# Errors and notes

Reading a program ends in one of three kinds of error: a word that is no word of the language, a
breach of the grammar, or a feature that is recognised but cannot be compiled yet.  What is merely
skipped becomes a note.

* `Fault`: the ways to break the grammar, with their wording in `Fault.message`.
* `ParseError`: an error, with the line and the token it is pinned to.
* `Diagnostic`: a note about a skipped token.
-/

namespace CalcLang

/-! ### Words -/

/-- A word that is no word of the language. -/
structure LexicalError where
  /-- The word. -/
  text : String
  /-- The line it stands on. -/
  line : Nat
  deriving DecidableEq, Repr

/-- Wording of a lexical error. -/
def LexicalError.message (error : LexicalError) : String :=
  "Unable to match token <" ++ error.text ++ "> on line " ++ toString error.line

/-! ### Grammar -/

/-- The side of a connective. -/
inductive Side where
  | left
  | right
  deriving DecidableEq, Repr

/-- The word for a side. -/
def Side.name : Side → String
  | .left => "left"
  | .right => "right"

/-- The parts of a version number, in order. -/
inductive VersionPart where
  | major
  | minor
  | patch
  deriving DecidableEq, Repr

/-- The word for a part of a version number. -/
def VersionPart.name : VersionPart → String
  | .major => "major"
  | .minor => "minor"
  | .patch => "patch"

/-- A breach of the grammar. -/
inductive Fault where
  /-- No token where an expression was to stand. -/
  | expectedExpression
  /-- Parentheses or connectives nest beyond the limit. -/
  | nestedTooDeeply
  /-- A line break or the end of the program inside an expression. -/
  | expressionEnds
  /-- A closing parenthesis that closes nothing. -/
  | unopenedParen
  /-- A pair of parentheses around nothing. -/
  | emptyParens
  /-- An opening parenthesis that is never closed. -/
  | unclosedParen
  /-- An operator or a comparison with nothing on one side. -/
  | missingOperand (word : Kind)
  /-- An operator beside something that is no operand. -/
  | invalidOperand (word : Kind)
  /-- A function with nothing to its right. -/
  | missingArgument (word : Kind)
  /-- A function before something that cannot be its argument. -/
  | invalidArgument (word : Kind)
  /-- Something is left over once an expression has been folded. -/
  | orphan (expression : String)
  /-- An expression that is a lone word but no operand. -/
  | notAnOperand
  /-- No token where a condition was to stand. -/
  | expectedCondition
  /-- A condition without a comparison. -/
  | expectedComparison
  /-- A second comparison in one condition. -/
  | secondComparison
  /-- A comparison inside the parentheses of an expression. -/
  | comparisonInParens
  /-- A connective inside the parentheses of an expression. -/
  | connectiveInParens
  /-- A second connective in one group. -/
  | secondConnective
  /-- A negation with something on its left. -/
  | negationOperand
  /-- A connective with nothing on one side. -/
  | missingSide (side : Side) (word : Kind)
  /-- A program that was to start with a title and does not. -/
  | missingTitle
  /-- The end of the program before its last token. -/
  | prematureEnd
  /-- A program keyword that is not the first token. -/
  | lateProgram
  /-- A program keyword without a title. -/
  | expectedTitle
  /-- A version without one of its numbers. -/
  | expectedVersion (part : VersionPart)
  /-- A declaration that does not open its line. -/
  | lateDeclaration
  /-- A type without a variable. -/
  | expectedVariable (word : Kind)
  /-- An implicit declaration without a type. -/
  | expectedDataType
  /-- An implicit declaration without a variable. -/
  | expectedImplicitVariable
  /-- An arrow with nothing to assign. -/
  | nothingAssigned
  /-- A conditional without a condition. -/
  | missingCondition
  /-- A conditional with a second alternative. -/
  | secondElse
  /-- A conditional that is never ended. -/
  | missingEnd
  /-- A conditional with an empty body. -/
  | emptyBody
  /-- A label or a jump that does not open its line. -/
  | lateJump (word : Kind)
  /-- A label or a jump without a name. -/
  | expectedLabel (word : Kind)
  /-- An output statement without an operand. -/
  | expectedOutput
  /-- A text output statement without an operand. -/
  | expectedTextOutput
  /-- A token that starts no statement. -/
  | unexpectedToken
  /-- A breach that a caller puts into words of its own. -/
  | stated (message : String)
  deriving DecidableEq, Repr

/-- Wording of a fault. -/
def Fault.message : Fault → String
  | .expectedExpression => "expected expression"
  | .nestedTooDeeply => "expression nested too deeply"
  | .expressionEnds => "expression ends unexpectedly"
  | .unopenedParen => "too many right parentheses"
  | .emptyParens => "empty parentheses"
  | .unclosedParen => "not all parentheses closed"
  | .missingOperand kind => "missing operand for " ++ kind.name
  | .invalidOperand kind => "invalid operand for " ++ kind.name
  | .missingArgument kind => kind.name ++ " requires an argument"
  | .invalidArgument kind =>
    "argument of " ++ kind.name ++ " must be a numeral or a parenthesized expression"
  | .orphan expression => "orphaned numeral in expression `" ++ expression ++ "`"
  | .notAnOperand => "invalid operand in expression"
  | .expectedCondition => "expected a condition"
  | .expectedComparison => "expected a boolean operator"
  | .secondComparison => "at most one boolean operator is allowed"
  | .comparisonInParens => "boolean operator cannot appear inside arithmetic parentheses"
  | .connectiveInParens => "logical operator inside parentheses must form its own condition"
  | .secondConnective => "only one logical operator is allowed per group, use parentheses"
  | .negationOperand => "NOT takes a single operand on its right"
  | .missingSide side kind => "missing " ++ side.name ++ " operand for " ++ kind.name
  | .missingTitle => "Program must begin with a program name"
  | .prematureEnd => "EOF must be the final token"
  | .lateProgram => "PROGRAM must be the first token of the program"
  | .expectedTitle => "Expected program name string after PROGRAM"
  | .expectedVersion part => "Expected " ++ part.name ++ " version number after VERSION"
  | .lateDeclaration => "data type must be the first token on its line"
  | .expectedVariable kind => "Expected variable after " ++ kind.name
  | .expectedDataType => "Expected data type after IMPLICIT"
  | .expectedImplicitVariable => "Expected variable after data type"
  | .nothingAssigned => "Expected expression after ->"
  | .missingCondition => "IF statement requires a condition"
  | .secondElse => "IF statement may only have one ELSE"
  | .missingEnd => "IF statement is missing END"
  | .emptyBody => "IF statement must be followed by code"
  | .lateJump kind => kind.name ++ " must be the first token on its line"
  | .expectedLabel kind => "Expected label name after " ++ kind.name
  | .expectedOutput => "Expected variable or literal after DISP"
  | .expectedTextOutput => "Expected string or variable after DISPSTR"
  | .unexpectedToken => "unexpected token at start of statement"
  | .stated message => message

/-! ### Errors of a compilation -/

/-- Why a program could not be compiled. -/
inductive ParseError where
  /-- A word that is no word of the language. -/
  | lexical (error : LexicalError)
  /-- A breach of the grammar, with the offending token and its line if there is one. -/
  | grammar (fault : Fault) (token : Option String) (line : Option Nat)
  /-- A feature that is recognised but cannot be compiled yet. -/
  | unsupported (feature : Keyword) (line : Nat)
  deriving DecidableEq, Repr

namespace ParseError

/-- A breach of the grammar pinned to the offending token. -/
def pinned (token : Token) (fault : Fault) : ParseError :=
  grammar fault (some token.display) (some token.line)

/-- A breach of the grammar that no token can be blamed for. -/
def nowhere (fault : Fault) : ParseError :=
  grammar fault none none

/-- The program uses a feature that cannot be compiled yet. -/
def isUnsupported : ParseError → Bool
  | unsupported _ _ => true
  | _ => false

/-- The line of an error, if it has one. -/
def line? : ParseError → Option Nat
  | lexical error => some error.line
  | grammar _ _ line => line
  | unsupported _ line => some line

/-- The offending token of a breach of the grammar, as it is displayed. -/
def token? : ParseError → Option String
  | grammar _ token _ => token
  | _ => none

/-- What is wrong, without the place. -/
def summary : ParseError → String
  | lexical error => error.message
  | grammar fault _ _ => fault.message
  | unsupported feature _ => feature.name ++ " is not implemented"

/-- What is wrong and where. -/
def message : ParseError → String
  | lexical error => "Lexical error: " ++ error.message
  | grammar fault token line =>
    "Syntax error" ++ (line.elim "" fun n => " at line " ++ toString n) ++ ": " ++ fault.message ++
      (token.elim "" fun text => " (got " ++ text ++ ")")
  | unsupported feature line =>
    feature.name ++ " is not implemented (line " ++ toString line ++ ")"

end ParseError

/-! ### Notes -/

/-- A finding that does not stop a compilation. -/
structure Diagnostic where
  /-- The line it is about. -/
  line : Nat
  /-- The finding. -/
  message : String
  deriving DecidableEq, Repr

/-- How a note is written. -/
def Diagnostic.display (note : Diagnostic) : String :=
  "line " ++ toString note.line ++ ": " ++ note.message

end CalcLang
