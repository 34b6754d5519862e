import CalcLang.Program.Session
import CalcLang.Span.Condition

/-!
# Statements

A statement is read from the next token on.  Conditionals hold blocks, which hold statements again;
here the reader of blocks is a parameter.

* `readStatement`: the tree of the next statement, or nothing if the next token was skipped.
-/

namespace CalcLang

open Reading

/-- Where a block ends. -/
inductive BlockEnd where
  /-- At the end of the program. -/
  | program
  /-- Before `END` or `ELSE`: the body of a conditional in block form. -/
  | keyword
  /-- Before the next line break: the body of a conditional in line form. -/
  | line
  deriving DecidableEq, Repr

/-! ### Headers -/

/-- `PROGRAM "title"`, which has to be the very first token. -/
def readTitle : Reading Node := do
  let session ← get
  let keyword ← take
  require session.passed.isEmpty (.pinned keyword .lateProgram)
  let title ← expect (· == .literal .string) .expectedTitle
  pure (.branch keyword [.leaf title])

/-- `VERSION` and three integers. -/
def readVersion : Reading Node := do
  let keyword ← take
  let major ← expect (· == .literal .int) (.expectedVersion .major)
  let minor ← expect (· == .literal .int) (.expectedVersion .minor)
  let patch ← expect (· == .literal .int) (.expectedVersion .patch)
  pure (.branch keyword [.leaf major, .leaf minor, .leaf patch])

/-! ### Declarations -/

/-- A data type and a variable.  The type opens its line. -/
def readDeclaration : Reading Node := do
  let session ← get
  require session.atLineStart (.pinned session.next .lateDeclaration)
  let type ← take
  let declared ← expect Kind.isVariable (.expectedVariable type.kind)
  pure (.branch type [.leaf declared])

/-- `IMPLICIT`, a data type and a variable. -/
def readImplicit : Reading Node := do
  let keyword ← take
  let type ← expect Kind.isDataType .expectedDataType
  let declared ← expect Kind.isVariable .expectedImplicitVariable
  pure (.branch keyword [.leaf type, .leaf declared])

/-! ### Assignments -/

/-- `variable -> expression`, where the expression is the rest of the line. -/
def readAssignment : Reading Node := do
  let target ← take
  let arrow ← take
  let session ← get
  let span := session.restOfLine
  require (!span.isEmpty) (.pinned arrow .nothingAssigned)
  let expression ← ofLogged (readExpression session.options span)
  modify (·.skip span.length)
  pure (.branch arrow [.leaf target, expression])

/-- The expression, the arrow and the variable of a line `expression -> variable`, which has no other
    arrow. -/
def storeParts? (line : List Token) : Option (List Token × Token × Token) :=
  match line.reverse with
  | target :: arrow :: last :: before =>
    if arrow.kind = .assign ∧ target.kind.isVariable ∧ line.countP (·.kind == .assign) = 1 then
      some ((last :: before).reverse, arrow, target)
    else
      none
  | _ => none

/-- `expression -> variable`, which fills its line. -/
def readStore (span : List Token) (arrow target : Token) : Reading Node := do
  let session ← get
  let expression ← ofLogged (readExpression session.options span)
  modify (·.skip (span.length + 2))
  pure (.branch arrow [.leaf target, expression])

/-! ### Conditionals -/

/-- The body of a conditional, which must not be empty. -/
def readBranch (readBlock : BlockEnd → Reading (List Node)) (opener : Token) (stop : BlockEnd) :
    Reading Node := do
  let statements ← readBlock stop
  require (!statements.isEmpty) (.pinned opener .emptyBody)
  pure (.phrase .block opener.line statements)

/-- The alternative of a conditional, if there is one: `ELSE` and a body.  A second one is an
    error. -/
def readAlternative (readBlock : BlockEnd → Reading (List Node)) : Reading (List Node) := do
  let session ← get
  if session.next.kind = .keyword .elseWord then
    let elseWord ← take
    let alternative ← readBranch readBlock elseWord .keyword
    let after ← peek
    require (after.kind != .keyword .elseWord) (.pinned after .secondElse)
    pure [alternative]
  else
    pure []

/-- The bodies of a conditional in block form, from what follows `THEN` through `END`. -/
def readBranches (readBlock : BlockEnd → Reading (List Node)) (keyword : Token) :
    Reading (List Node) := do
  let body ← readBranch readBlock keyword .keyword
  let alternative ← readAlternative readBlock
  let after ← peek
  require (after.kind == .keyword .endWord) (.pinned keyword .missingEnd)
  let _ ← take
  pure (body :: alternative)

/-- `IF condition THEN`, bodies and `END`; or `IF condition` and a body on the next line that is not
    empty. -/
def readConditional (readBlock : BlockEnd → Reading (List Node)) : Reading Node := do
  let keyword ← take
  let session ← get
  let line := session.restOfLine
  let span := line.takeWhile (·.kind ≠ .keyword .thenWord)
  require (!span.isEmpty) (.pinned keyword .missingCondition)
  let condition ← ofLogged (readCondition session.options span)
  if span.length < line.length then
    modify (·.skip (span.length + 1))
    let bodies ← readBranches readBlock keyword
    pure (.branch keyword (condition :: bodies))
  else
    modify (·.skip line.length)
    modify Session.skipLineBreaks
    let body ← readBranch readBlock keyword .line
    pure (.branch keyword [condition, body])

/-! ### Jumps and output -/

/-- A label or a jump and its name.  It opens its line. -/
def readJump : Reading Node := do
  let session ← get
  require session.atLineStart (.pinned session.next (.lateJump session.next.kind))
  let keyword ← take
  let target ← expect Kind.isVariable (.expectedLabel keyword.kind)
  pure (.branch keyword [.leaf target])

/-- `DISP` and a variable or a literal. -/
def readDisp : Reading Node := do
  let keyword ← take
  let operand ← expect (fun kind => kind.isVariable || kind.isLiteral) .expectedOutput
  pure (.branch keyword [.leaf operand])

/-- `DISPSTR` and a string or a variable. -/
def readDispStr : Reading Node := do
  let keyword ← take
  let operand ←
    expect (fun kind => kind == .literal .string || kind.isVariable) .expectedTextOutput
  pure (.branch keyword [.leaf operand])

/-! ### Any statement -/

/-- Passes a token that starts no statement: it is an error, or it is noted, by the options. -/
def skipUnknown : Reading (Option Node) := do
  let token ← take
  let session ← get
  require (session.options.unknownStatements == .skip) (.pinned token .unexpectedToken)
  record [⟨.warn,
    "line " ++ toString token.line ++ ": skipping unexpected token " ++ token.display⟩]
  note ⟨token.line, "skipped unexpected token " ++ token.display⟩
  pure none

/-- Reads the statement that starts at the next token, where `readBlock` reads a block. -/
def readStatement (readBlock : BlockEnd → Reading (List Node)) : Reading (Option Node) := do
  let session ← get
  let token := session.next
  trace ("statement " ++ token.display ++ " on line " ++ toString token.line)
  match token.kind with
  | .keyword .program => some <$> readTitle
  | .keyword .version => some <$> readVersion
  | .dataType _ => some <$> readDeclaration
  | .keyword .implicit => some <$> readImplicit
  | .keyword .ifWord => some <$> readConditional readBlock
  | .keyword .label => some <$> readJump
  | .keyword .goto => some <$> readJump
  | .keyword .disp => some <$> readDisp
  | .keyword .dispStr => some <$> readDispStr
  | .keyword .call => throw (.unsupported .call token.line)
  | kind =>
    if kind.isVariable ∧ (session.ahead[1]?.map Token.kind) = some .assign then
      some <$> readAssignment
    else
      match if session.atLineStart then storeParts? session.restOfLine else none with
      | some (span, arrow, target) => some <$> readStore span arrow target
      | none => skipUnknown

end CalcLang
