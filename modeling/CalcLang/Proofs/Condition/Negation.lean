import CalcLang.Proofs.Condition.Language

/-! # Negations beside a connective

    A negation is a connective of its group like any other.  So it may not stand on the right of a
    connective unless it is in parentheses, although its only operand follows it.

    * `readConditionWithin_second`: of two connectives at depth zero, the second is an error.
    * `readCondition_negatedOperand`: what comes of a negated operand, with and without parentheses. -/

namespace CalcLang

variable {options : ReadOptions} {span left right : List Token}
  {mark negation opening closing : Token} {leftTree rightTree : Node} {level room : Nat}

/-! ### Two connectives -/

theorem hasConnective_of_connectives {segments : List Segment} {others : List Token}
    (hcut : splitGroups span = .ok segments)
    (hmarks : segments.filterMap Segment.connective? = mark :: others) :
    hasConnective span = true := by
  cases hsome : hasConnective span with
  | true => rfl
  | false =>
    rw [connectives_eq_nil hcut hsome] at hmarks
    cases hmarks

/-- Of two connectives at depth zero, the second is an error, whatever is around them. -/
theorem readConditionWithin_second {segments : List Segment} {others : List Token} {second : Token}
    (hcut : splitGroups span = .ok segments)
    (hmarks : segments.filterMap Segment.connective? = mark :: second :: others) :
    (readConditionWithin options (room + 1) span).result =
      .error (.pinned second .secondConnective) := by
  have hsome := hasConnective_of_connectives hcut hmarks
  obtain ⟨nested, hnested⟩ := exists_find_of_hasConnective hsome
  cases span with
  | nil => cases hsome
  | cons first rest =>
    have hread : (Logged.ofExcept (splitGroups (first :: rest))).result = .ok segments := hcut
    rw [readConditionWithin, readConditionLevel, hnested]
    simp only
    rw [Logged.result_bind_of_ok _ hread, hmarks]
    rfl

/-! ### A negated operand -/

/-- A negation on the right of a connective is an error.  In parentheses it is the right operand of
    the connective, if there is room for it. -/
theorem readCondition_negatedOperand (hmark : mark.kind.isConnective = true)
    (hbinary : mark.kind ≠ .connective .not) (hnegation : negation.kind = .connective .not)
    (hopen : opening.kind = .openParen) (hclose : closing.kind = .closeParen)
    (hline : ∀ t ∈ left ++ right, t.kind.isWord = true)
    (hleft : IsSide options level left leftTree)
    (hright : (readComparison options right).result = .ok rightTree) :
    (readCondition options (left ++ mark :: negation :: right)).result =
        .error (.pinned negation .secondConnective) ∧
      (level < maxNesting →
        (readCondition options (left ++ mark :: (opening :: (negation :: right) ++ [closing]))).result =
          .ok (.phrase .logicExpr mark.line [.branch mark
            [leftTree, .phrase .logicExpr negation.line [.branch negation [rightTree]]]])) := by
  have hwords : IsLine (left ++ right) := hline
  have hcomparison := isComparison_of_readComparison hright
  obtain ⟨before, hbefore, hleftNone⟩ := hleft.exists_segments hwords.of_append_left
  obtain ⟨after, hafter⟩ := hcomparison.exists_segments hwords.of_append_right
  have hrightNone := connectives_eq_nil hafter (hcomparison.hasConnective_eq hwords.of_append_right)
  have hconnective : negation.kind.isConnective = true := by
    rw [hnegation]
    rfl
  refine ⟨?_, ?_⟩
  · -- Both connectives stand at depth zero, the negation behind the other one.
    have hbehind : splitGroups (negation :: right) = .ok (.token negation :: after) :=
      splitGroups_append (splitGroups_word (Kind.isParen_of_isConnective hconnective)) hafter
    have hmarks : (before ++ .token mark :: .token negation :: after).filterMap
        Segment.connective? = [mark, negation] := by
      simp [List.filterMap_append, hleftNone, hrightNone, Segment.connective?, hmark, hconnective]
    exact readConditionWithin_second
      (splitGroups_around hbefore (Kind.isParen_of_isConnective hmark) hbehind) hmarks
  · intro hlevel
    have hnegated := IsCondition.negation hnegation (IsSide.comparison hcomparison)
    have hnested : hasConnective (negation :: right) = true := by
      simp [hasConnective, hconnective]
    have hcondition :=
      IsCondition.joined hmark hbinary hleft (IsSide.group hopen hclose hnegated)
    rw [hnested, if_pos rfl] at hcondition
    have hgroup : IsLine (opening :: (negation :: right) ++ [closing]) :=
      .group hopen hclose
        (.cons (Kind.isWord_of_isConnective hconnective) hwords.of_append_right)
    have hroom : 3 ≤ maxNesting := by
      decide
    exact hcondition.readWithin
      (hwords.of_append_left.append (.cons (Kind.isWord_of_isConnective hmark) hgroup)) _ (by omega)

/-- The condition `A == 1 OR NOT B == 2` is an error, and `A == 1 OR (NOT B == 2)` is read. -/
theorem readCondition_negatedOperand_or :
    (readCondition .default
      [⟨.var .scalar, some "A", 1⟩, ⟨.comparison .equal, none, 1⟩, ⟨.literal .int, some "1", 1⟩,
        ⟨.connective .or, none, 1⟩, ⟨.connective .not, none, 1⟩, ⟨.var .scalar, some "B", 1⟩,
        ⟨.comparison .equal, none, 1⟩, ⟨.literal .int, some "2", 1⟩]).result =
        .error (.pinned ⟨.connective .not, none, 1⟩ .secondConnective) ∧
      (readCondition .default
        [⟨.var .scalar, some "A", 1⟩, ⟨.comparison .equal, none, 1⟩, ⟨.literal .int, some "1", 1⟩,
          ⟨.connective .or, none, 1⟩, ⟨.openParen, none, 1⟩, ⟨.connective .not, none, 1⟩,
          ⟨.var .scalar, some "B", 1⟩, ⟨.comparison .equal, none, 1⟩,
          ⟨.literal .int, some "2", 1⟩, ⟨.closeParen, none, 1⟩]).result =
        .ok (.phrase .logicExpr 1 [.branch ⟨.connective .or, none, 1⟩
          [.phrase .boolExpr 1 [.branch ⟨.comparison .equal, none, 1⟩
            [.leaf ⟨.var .scalar, some "A", 1⟩, .leaf ⟨.literal .int, some "1", 1⟩]],
          .phrase .logicExpr 1 [.branch ⟨.connective .not, none, 1⟩
            [.phrase .boolExpr 1 [.branch ⟨.comparison .equal, none, 1⟩
              [.leaf ⟨.var .scalar, some "B", 1⟩, .leaf ⟨.literal .int, some "2", 1⟩]]]]]]) := by
  have hleft : IsSide .default 0 ([⟨.var .scalar, some "A", 1⟩] ++ ⟨.comparison .equal, none, 1⟩ ::
      [⟨.literal .int, some "1", 1⟩]) _ := .comparison (.compare rfl rfl rfl)
  have hright : (readComparison .default [⟨.var .scalar, some "B", 1⟩,
      ⟨.comparison .equal, none, 1⟩, ⟨.literal .int, some "2", 1⟩]).result = .ok _ := rfl
  have hmark : (⟨.connective .or, none, 1⟩ : Token).kind.isConnective = true := rfl
  have hnegation : (⟨.connective .not, none, 1⟩ : Token).kind = .connective .not := rfl
  have hopen : (⟨.openParen, none, 1⟩ : Token).kind = .openParen := rfl
  have hclose : (⟨.closeParen, none, 1⟩ : Token).kind = .closeParen := rfl
  obtain ⟨hbare, hwrapped⟩ := readCondition_negatedOperand hmark (by decide) hnegation hopen hclose
    (by decide) hleft hright
  exact ⟨hbare, hwrapped (by decide)⟩

/-- The condition `(A == 1 AND B == 2) OR NOT C < 0` is not read, so it is not true that a negation
    may stand on the right of a connective, however little its left operand is nested. -/
theorem readCondition_negatedOperand_rejected :
    ¬ ∀ (options : ReadOptions) (mark negation : Token) (left right : List Token) (level : Nat)
      (leftTree rightTree : Node), mark.kind.isConnective = true → mark.kind ≠ .connective .not →
      negation.kind = .connective .not → (∀ t ∈ left ++ right, t.kind.isWord = true) →
      IsSide options level left leftTree → level < 60 →
      (readComparison options right).result = .ok rightTree →
      (readCondition options (left ++ mark :: negation :: right)).result =
        .ok (.phrase .logicExpr mark.line [.branch mark
          [leftTree, .phrase .logicExpr negation.line [.branch negation [rightTree]]]]) := by
  intro hall
  have hfirst : IsSide .default 0 ([⟨.var .scalar, some "A", 1⟩] ++ ⟨.comparison .equal, none, 1⟩ ::
      [⟨.literal .int, some "1", 1⟩]) _ := .comparison (.compare rfl rfl rfl)
  have hsecond : IsSide .default 0 ([⟨.var .scalar, some "B", 1⟩] ++
      ⟨.comparison .equal, none, 1⟩ :: [⟨.literal .int, some "2", 1⟩]) _ :=
    .comparison (.compare rfl rfl rfl)
  have hand : (⟨.connective .and, none, 1⟩ : Token).kind.isConnective = true := rfl
  have hopen : (⟨.openParen, none, 1⟩ : Token).kind = .openParen := rfl
  have hclose : (⟨.closeParen, none, 1⟩ : Token).kind = .closeParen := rfl
  have hleft := IsSide.group hopen hclose (.joined hand (by decide) hfirst hsecond)
  have h := hall .default ⟨.connective .or, none, 1⟩ ⟨.connective .not, none, 1⟩ _
    [⟨.var .scalar, some "C", 1⟩, ⟨.comparison .less, none, 1⟩, ⟨.literal .int, some "0", 1⟩] _ _ _
    rfl (by decide) rfl (by decide) hleft (by decide) rfl
  cases h

end CalcLang
