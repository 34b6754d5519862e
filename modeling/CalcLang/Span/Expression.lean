import CalcLang.Span.Fold
import CalcLang.Span.Groups
import CalcLang.Token.Print

/-!
# Expressions

An arithmetic expression is read from a span.  The groups of the span are read first, each as an
expression of its own; the row that results is folded tier by tier, then functions are applied, and
one node has to be left.

* `readExpression`: the tree of an expression.
-/

namespace CalcLang

/-- The deepest nesting of parentheses, or of connectives, that is read. -/
def maxNesting : Nat := 64

/-- How messages quote a span: as program text on one line. -/
def quoteSpan (span : List Token) : String :=
  String.ofList ((printFrom true span).map fun c => if c = '\n' then ' ' else c)

/-- The row of siblings of a span, where `inner` reads the inside of a group. -/
def readSiblings (inner : List Token → Logged ParseError Node) :
    List Segment → Logged ParseError (List Node)
  | [] => pure []
  | .token token :: rest => do
    let later ← readSiblings inner rest
    pure (Node.leaf token :: later)
  | .group _ tokens _ :: rest => do
    let node ← inner tokens
    let later ← readSiblings inner rest
    pure (node :: later)

/-- The tree of a row that has been folded.  It has to be a single operand; an expression that is
    all in parentheses needs no second node. -/
def closeExpression (span : List Token) (first : Token) : List Node → Except ParseError Node
  | [] => .error (.pinned first .expectedExpression)
  | [node] =>
    if !isOperand node then
      .error (.pinned node.token .notAnOperand)
    else if node.kind = .phrase .expr then
      .ok node
    else
      .ok (.phrase .expr first.line [node])
  | _ :: second :: rest =>
    let stray := ((second :: rest).find? fun node => node.isLeaf && node.kind.isNumeral).getD second
    .error (.pinned stray.token (.orphan (quoteSpan span)))

/-- Reads an expression that starts with a given token, where `inner` reads the inside of a
    group. -/
def readLevel (options : ReadOptions) (inner : List Token → Logged ParseError Node) (first : Token)
    (rest : List Token) : Logged ParseError Node := do
  let span := first :: rest
  if rest.isEmpty && first.kind.isNumeral then
    pure (.leaf first)
  else
    match span.find? (·.kind.endsLine) with
    | some token => .fail (.pinned token .expressionEnds)
    | none =>
      .noteIf options.debug .debug ("expression `" ++ quoteSpan span ++ "`")
      let segments ← .ofExcept (splitGroups span)
      let siblings ← readSiblings inner segments
      let once ← foldTier options.debug options.precedence.firstTier siblings
      let twice ← foldTier options.debug options.precedence.secondTier once
      let applied ← applyFunctions options.debug twice
      .ofExcept (closeExpression span first applied)

/-- Reads an expression with fewer than `room` levels of parentheses. -/
def readExpressionWithin (options : ReadOptions) : Nat → List Token → Logged ParseError Node
  | _, [] => .fail (.nowhere .expectedExpression)
  | 0, first :: _ => .fail (.pinned first .nestedTooDeeply)
  | room + 1, first :: rest => readLevel options (readExpressionWithin options room) first rest

/-- Reads a span as an arithmetic expression. -/
def readExpression (options : ReadOptions) (span : List Token) : Logged ParseError Node :=
  readExpressionWithin options (maxNesting + 1) span

end CalcLang
