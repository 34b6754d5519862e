import CalcLang.Span.Expression

/-!
# Conditions

A condition is a comparison of two expressions, or conditions joined by a connective.  A group holds
at most one connective, so longer chains are written with parentheses.

* `readComparison`: the tree of a comparison.
* `readCondition`: the tree of a condition.
-/

namespace CalcLang

/-! ### Comparisons -/

/-- A comparison at depth zero. -/
def Segment.isComparison : Segment → Bool
  | token t => t.kind.isComparison
  | group _ _ _ => false

/-- The tokens before and after the first token with a property. -/
def splitAtFirst (property : Token → Bool) (span : List Token) : List Token × List Token :=
  (span.takeWhile (!property ·), (span.dropWhile (!property ·)).drop 1)

/-- Reads a span as a comparison of two expressions.  Parentheses around the whole of it do not
    count. -/
def readComparison (options : ReadOptions) (span : List Token) : Logged ParseError Node := do
  match peelParens span with
  | [] => .fail (.nowhere .expectedCondition)
  | first :: rest =>
    let span := first :: rest
    match span.filter (·.kind.isComparison) with
    | [] => .fail (.pinned first .expectedComparison)
    | _ :: second :: _ => .fail (.pinned second .secondComparison)
    | [comparison] =>
      let segments ← .ofExcept (splitGroups span)
      if !segments.any Segment.isComparison then
        .fail (.pinned comparison .comparisonInParens)
      else
        let (left, right) := splitAtFirst (·.kind.isComparison) span
        if left.isEmpty || right.isEmpty then
          .fail (.pinned comparison (.missingOperand comparison.kind))
        else
          .noteIf options.debug .debug
            ("comparison " ++ comparison.kind.name ++ " on line " ++ toString comparison.line)
          let leftTree ← readExpression options left
          let rightTree ← readExpression options right
          pure (.phrase .boolExpr comparison.line [.branch comparison [leftTree, rightTree]])

/-! ### Connectives -/

/-- The connective at depth zero that a piece is, if it is one. -/
def Segment.connective? : Segment → Option Token
  | token t => if t.kind.isConnective then some t else none
  | group _ _ _ => none

/-- The tokens before and after the first connective at depth zero. -/
def splitAtConnective (segments : List Segment) : List Token × List Token :=
  ((segments.takeWhile (·.connective?.isNone)).flatMap Segment.tokens,
   ((segments.dropWhile (·.connective?.isNone)).drop 1).flatMap Segment.tokens)

/-- Reads the operands of a connective, where `inner` reads one operand. -/
def readOperands (inner : List Token → Logged ParseError Node) (connective : Token)
    (left right : List Token) : Logged ParseError (List Node) := do
  if connective.kind = .connective .not then
    if !left.isEmpty then
      .fail (.pinned connective .negationOperand)
    else if right.isEmpty then
      .fail (.pinned connective (.missingSide .right connective.kind))
    else
      let operand ← inner right
      pure [operand]
  else
    if left.isEmpty then
      .fail (.pinned connective (.missingSide .left connective.kind))
    else
      let leftTree ← inner left
      if right.isEmpty then
        .fail (.pinned connective (.missingSide .right connective.kind))
      else
        let rightTree ← inner right
        pure [leftTree, rightTree]

/-- Reads a condition that starts with a given token, where `inner` reads a part of it. -/
def readConditionLevel (options : ReadOptions) (inner : List Token → Logged ParseError Node)
    (first : Token) (rest : List Token) : Logged ParseError Node := do
  let span := first :: rest
  match span.find? (·.kind.isConnective) with
  | none => readComparison options span
  | some nested =>
    let segments ← .ofExcept (splitGroups span)
    match segments.filterMap Segment.connective? with
    | [] =>
      match segments with
      | [.group _ tokens _] => inner tokens
      | _ => .fail (.pinned nested .connectiveInParens)
    | _ :: second :: _ => .fail (.pinned second .secondConnective)
    | [connective] =>
      let (left, right) := splitAtConnective segments
      let operands ← readOperands inner connective left right
      .noteIf options.debug .debug
        ("connective " ++ connective.kind.name ++ " on line " ++ toString connective.line)
      pure (.phrase .logicExpr connective.line [.branch connective operands])

/-- Reads a condition with fewer than `room` levels of connectives and of parentheses around
    connectives. -/
def readConditionWithin (options : ReadOptions) : Nat → List Token → Logged ParseError Node
  | _, [] => .fail (.nowhere .expectedCondition)
  | 0, first :: _ => .fail (.pinned first .nestedTooDeeply)
  | room + 1, first :: rest =>
    readConditionLevel options (readConditionWithin options room) first rest

/-- Reads a span as a condition. -/
def readCondition (options : ReadOptions) (span : List Token) : Logged ParseError Node :=
  readConditionWithin options (maxNesting + 1) span

end CalcLang
