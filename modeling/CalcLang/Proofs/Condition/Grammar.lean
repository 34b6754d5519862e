import CalcLang.Proofs.Expression.Language
import CalcLang.Span.Condition

/-! # The grammar of conditions

    The language of conditions, each with its tree and its level, on top of the expressions that are
    read:

    * `IsComparison`: `comparison ::= ( comparison ) | expression CMP expression`.
    * `IsSide`: `side ::= comparison | ( condition )`.
    * `IsCondition`: `condition ::= side | NOT side | side CONN side`.

    The level of a condition counts its connectives and the parentheses around them. -/

namespace CalcLang

/-- A comparison of two expressions, or one in parentheses, with its tree. -/
inductive IsComparison (options : ReadOptions) : List Token → Node → Prop
  | compare {left right : List Token} {mark : Token} {leftTree rightTree : Node}
      (hmark : mark.kind.isComparison = true)
      (hleft : (readExpression options left).result = .ok leftTree)
      (hright : (readExpression options right).result = .ok rightTree) :
      IsComparison options (left ++ mark :: right)
        (.phrase .boolExpr mark.line [.branch mark [leftTree, rightTree]])
  | group {opening closing : Token} {inner : List Token} {tree : Node}
      (hopen : opening.kind = .openParen) (hclose : closing.kind = .closeParen)
      (hinner : IsComparison options inner tree) :
      IsComparison options (opening :: inner ++ [closing]) tree

/-- A span with a connective in it, at whatever depth. -/
def hasConnective (span : List Token) : Bool :=
  span.any (·.kind.isConnective)

mutual

/-- What may stand beside a connective, with its level and its tree: a comparison, or a condition in
    parentheses. -/
inductive IsSide (options : ReadOptions) : Nat → List Token → Node → Prop
  | comparison {span : List Token} {tree : Node} (h : IsComparison options span tree) :
      IsSide options 0 span tree
  | group {opening closing : Token} {level : Nat} {inner : List Token} {tree : Node}
      (hopen : opening.kind = .openParen) (hclose : closing.kind = .closeParen)
      (hinner : IsCondition options level inner tree) :
      IsSide options (if hasConnective inner then level + 1 else 0)
        (opening :: inner ++ [closing]) tree

/-- A condition, with its level and its tree. -/
inductive IsCondition (options : ReadOptions) : Nat → List Token → Node → Prop
  | side {level : Nat} {span : List Token} {tree : Node} (h : IsSide options level span tree) :
      IsCondition options level span tree
  | negation {mark : Token} {level : Nat} {right : List Token} {tree : Node}
      (hmark : mark.kind = .connective .not) (hright : IsSide options level right tree) :
      IsCondition options (level + 1) (mark :: right)
        (.phrase .logicExpr mark.line [.branch mark [tree]])
  | joined {mark : Token} {leftLevel rightLevel : Nat} {left right : List Token}
      {leftTree rightTree : Node}
      (hmark : mark.kind.isConnective = true) (hbinary : mark.kind ≠ .connective .not)
      (hleft : IsSide options leftLevel left leftTree)
      (hright : IsSide options rightLevel right rightTree) :
      IsCondition options (max leftLevel rightLevel + 1) (left ++ mark :: right)
        (.phrase .logicExpr mark.line [.branch mark [leftTree, rightTree]])

end

end CalcLang
