import CalcLang.Proofs.Parentheses
import CalcLang.Span.Expression

/-! # The grammar of expressions

    The language of arithmetic expressions, and the tree that belongs to each of them, without any
    reference to how an expression is read:

    * `Expression`: the derivations of
      `expression ::= operand { operator operand } | function operand` and
      `operand ::= numeral | ( expression )`.
    * `Expression.tokens`: the span that a derivation spells.
    * `Expression.depth`: the deepest nesting of its parentheses.
    * `Expression.tree`: its tree under a precedence.
    * `Node.inOrder`: the tokens of a tree, with an operator between its operands. -/

namespace CalcLang

/-! ### Words -/

/-- The kinds of the tokens of a program: all but the phrases. -/
def Kind.isScanned : Kind → Bool
  | .phrase _ => false
  | _ => true

/-- The kinds of the words of a line: those of the tokens that do not end one. -/
def Kind.isWord (kind : Kind) : Bool :=
  kind.isScanned && !kind.endsLine

/-- The kinds of the words of expressions. -/
def Kind.isArithmetic (kind : Kind) : Bool :=
  kind.isNumeral || kind.isOperator || kind.isFunction || kind.isParen

/-! ### Derivations -/

mutual

/-- An operand is a numeral, or an expression in parentheses. -/
inductive Operand where
  | numeral (token : Token) (hnumeral : token.kind.isNumeral)
  | group (opening : Token) (inner : Expression) (closing : Token)
      (hopen : opening.kind = .openParen) (hclose : closing.kind = .closeParen)

/-- The operators behind the first operand of an expression, each with the operand to its right. -/
inductive Links where
  | nil
  | cons (operator : Token) (right : Operand) (rest : Links) (hoperator : operator.kind.isOperator)

/-- An expression is a chain of operands, or a function and its argument. -/
inductive Expression where
  | chain (first : Operand) (links : Links)
  | call (function : Token) (argument : Operand) (hfunction : function.kind.isFunction)

end

mutual

/-- The span that an operand spells. -/
def Operand.tokens : Operand → List Token
  | .numeral token _ => [token]
  | .group opening inner closing _ _ => opening :: inner.tokens ++ [closing]

/-- The span that some operators and operands spell. -/
def Links.tokens : Links → List Token
  | .nil => []
  | .cons operator right rest _ => operator :: right.tokens ++ rest.tokens

/-- The span that an expression spells. -/
def Expression.tokens : Expression → List Token
  | .chain first links => first.tokens ++ links.tokens
  | .call function argument _ => function :: argument.tokens

end

mutual

/-- The largest number of parentheses around a numeral of an operand. -/
def Operand.depth : Operand → Nat
  | .numeral _ _ => 0
  | .group _ inner _ _ _ => inner.depth + 1

/-- The largest number of parentheses around a numeral behind the first operand. -/
def Links.depth : Links → Nat
  | .nil => 0
  | .cons _ right rest _ => max right.depth rest.depth

/-- The largest number of parentheses around a numeral of an expression. -/
def Expression.depth : Expression → Nat
  | .chain first links => max first.depth links.depth
  | .call _ argument _ => argument.depth

end

/-- The first token of an operand. -/
def Operand.head : Operand → Token
  | .numeral token _ => token
  | .group opening _ _ _ _ => opening

/-! ### Trees

    A row of operands with operators between them is cut into runs at the operators that are folded
    last.  Each run is folded from the left, and then the row of the runs is. -/

/-- An operator of a tier. -/
def Token.isIn (tier : List Operator) (token : Token) : Bool :=
  match token.kind with
  | .operator operator => tier.contains operator
  | _ => false

/-- A row of operands: the first one, and each later one with the operator to its left. -/
structure Run where
  /-- The first operand. -/
  first : Node
  /-- The later operands, each with the operator to its left. -/
  links : List (Token × Node)

/-- The tree of a row whose operators are folded from the left. -/
def Run.fold (run : Run) : Node :=
  run.links.foldl (fun left link => .branch link.1 [left, link.2]) run.first

/-- Cuts a row at the operators of a tier: the first run, and each later one with the operator to its
    left. -/
def Run.cut (tier : List Operator) : Node → List (Token × Node) → Run × List (Token × Run)
  | first, [] => (⟨first, []⟩, [])
  | first, (operator, operand) :: rest =>
    let (run, later) := cut tier operand rest
    if operator.isIn tier then
      (⟨first, []⟩, (operator, run) :: later)
    else
      (⟨first, (operator, operand) :: run.links⟩, later)

/-- The row of the trees of some runs. -/
def Run.ofRuns (runs : Run × List (Token × Run)) : Run :=
  ⟨runs.1.fold, runs.2.map fun (operator, run) => (operator, run.fold)⟩

/-- The tree of a row under a precedence. -/
def Precedence.tree (precedence : Precedence) (first : Node) (links : List (Token × Node)) : Node :=
  (Run.ofRuns (Run.cut precedence.secondTier first links)).fold

/-- The node of an expression on a given line, which is not doubled. -/
def wrapExpression (line : Nat) (node : Node) : Node :=
  if node.kind = .phrase .expr then node else .phrase .expr line [node]

mutual

/-- The tree of an operand.  A group is the tree of its inside. -/
def Operand.tree (precedence : Precedence) : Operand → Node
  | .numeral token _ => .leaf token
  | .group _ inner _ _ _ => inner.tree precedence

/-- Operators, each with the tree of the operand to its right. -/
def Links.trees (precedence : Precedence) : Links → List (Token × Node)
  | .nil => []
  | .cons operator right rest _ => (operator, right.tree precedence) :: rest.trees precedence

/-- The tree of an expression.  A lone numeral has no node of an expression around it. -/
def Expression.tree (precedence : Precedence) : Expression → Node
  | .chain (.numeral token _) .nil => .leaf token
  | .chain first links =>
    wrapExpression first.head.line
      (precedence.tree (first.tree precedence) (links.trees precedence))
  | .call function argument _ =>
    wrapExpression function.line (.branch function [argument.tree precedence])

end

/-- The tokens of a tree of an expression, with an operator between its operands and a function
    before its argument. -/
def Node.inOrder : Node → List Token
  | ⟨token, _, []⟩ => [token]
  | ⟨token, _, [inner]⟩ =>
    if token.kind = .phrase .expr then inner.inOrder else token :: inner.inOrder
  | ⟨token, _, [left, right]⟩ => left.inOrder ++ token :: right.inOrder
  | _ => []

end CalcLang
