import CalcLang.Proofs.Expression.Relabelling
import CalcLang.Span.Condition

/-! # Relabelling the tokens of a condition

    Conditions, like expressions, are read by the kinds of their tokens:

    * `Relabelling.relabels_readCondition`: reading a relabelled span gives the relabelled tree, or
      the relabelled error. -/

namespace CalcLang.Relabelling

variable {R : Relabelling} {inner inner' : List Token → Logged ParseError Node}

/-! ### Parentheses -/

theorem afterClosing_map (depth : Nat) (span : List Token) :
    afterClosing depth (span.map R.token) = (afterClosing depth span).map (List.map R.token) := by
  induction span generalizing depth with
  | nil => rfl
  | cons token rest ih =>
    rw [List.map_cons]
    unfold afterClosing
    rw [R.kind_token]
    split
    · exact ih _
    · rfl
    · exact ih _
    · exact ih _

theorem interior?_map (span : List Token) :
    interior? (span.map R.token) = (interior? span).map (List.map R.token) := by
  cases span with
  | nil => rfl
  | cons first rest =>
    have hclosed : (afterClosing 0 rest).map (List.map R.token) = some [] ↔
        afterClosing 0 rest = some [] := by
      cases afterClosing 0 rest <;> simp
    simp only [List.map_cons, interior?, R.kind_token, afterClosing_map, hclosed]
    split
    · rw [Option.map_some, List.map_dropLast]
    · rfl

theorem peelWithin_map (rounds : Nat) (span : List Token) :
    peelWithin rounds (span.map R.token) = (peelWithin rounds span).map R.token := by
  induction rounds generalizing span with
  | zero => rfl
  | succ rounds ih =>
    rw [peelWithin, peelWithin, interior?_map]
    cases interior? span with
    | none => rfl
    | some inner => exact ih inner

theorem peelParens_map (span : List Token) :
    peelParens (span.map R.token) = (peelParens span).map R.token := by
  unfold peelParens
  rw [List.length_map]
  exact peelWithin_map _ span

/-! ### Comparisons -/

theorem splitAtFirst_map (property : Kind → Bool) (span : List Token) :
    splitAtFirst (property ·.kind) (span.map R.token) =
      ((splitAtFirst (property ·.kind) span).1.map R.token,
        (splitAtFirst (property ·.kind) span).2.map R.token) := by
  unfold splitAtFirst
  rw [List.takeWhile_map, List.dropWhile_map, List.map_drop]
  simp only [Function.comp_def, R.kind_token]

theorem isComparison_segment (segment : Segment) :
    (R.segment segment).isComparison = segment.isComparison := by
  cases segment with
  | token t => exact congrArg Kind.isComparison (R.kind_token t)
  | group opening tokens closing => rfl

theorem relabels_readComparison (options : ReadOptions) :
    R.Reads (readComparison options) (readComparison options) := by
  intro span
  unfold readComparison
  rw [peelParens_map]
  cases peelParens span with
  | nil => exact relabels_fail (R.error_nowhere .expectedCondition nofun).symm
  | cons first rest =>
    have hmarks : ((first :: rest).map R.token).filter (·.kind.isComparison) =
        ((first :: rest).filter (·.kind.isComparison)).map R.token := by
      rw [List.filter_map]
      simp only [Function.comp_def, R.kind_token]
    simp only [List.map_cons] at hmarks ⊢
    rw [hmarks]
    cases (first :: rest).filter (·.kind.isComparison) with
    | nil => exact relabels_pinned first .expectedComparison nofun
    | cons mark others =>
      cases others with
      | cons second others => exact relabels_pinned second .secondComparison nofun
      | nil =>
        refine (relabels_ofExcept (splitGroups_map (first :: rest))).bind fun segments => ?_
        have hany : (segments.map R.segment).any Segment.isComparison =
            segments.any Segment.isComparison := by
          rw [List.any_map]
          simp only [Function.comp_def, isComparison_segment]
        have hsplit := splitAtFirst_map (R := R) Kind.isComparison (first :: rest)
        rw [List.map_cons] at hsplit
        rw [hany, hsplit]
        simp only [List.isEmpty_map, R.kind_token]
        split
        · exact relabels_pinned _ _ nofun
        · split
          · exact relabels_pinned _ _ nofun
          · refine relabels_noteIf _ _ _ ?_
            refine (relabels_readExpression options _).bind fun leftTree => ?_
            refine (relabels_readExpression options _).bind fun rightTree => ?_
            have htree := relabels_pure (R := R) (f := R.node)
              (Node.phrase .boolExpr mark.line [.branch mark [leftTree, rightTree]])
            rw [node_phrase, List.map_singleton, node_branch] at htree
            exact htree

/-! ### Connectives -/

theorem connective?_segment (segment : Segment) :
    (R.segment segment).connective? = segment.connective?.map R.token := by
  cases segment with
  | token t =>
    rw [segment, Segment.connective?, Segment.connective?, R.kind_token]
    split <;> rfl
  | group opening tokens closing => rfl

theorem tokens_segment (segment : Segment) :
    (R.segment segment).tokens = segment.tokens.map R.token := by
  cases segment with
  | token t => rfl
  | group opening tokens closing => simp [segment, Segment.tokens]

theorem filterMap_connective? (segments : List Segment) :
    (segments.map R.segment).filterMap Segment.connective? =
      (segments.filterMap Segment.connective?).map R.token := by
  rw [List.filterMap_map, List.map_filterMap]
  simp only [Function.comp_def, connective?_segment]

theorem splitAtConnective_map (segments : List Segment) :
    splitAtConnective (segments.map R.segment) =
      ((splitAtConnective segments).1.map R.token, (splitAtConnective segments).2.map R.token) := by
  have hflat (pieces : List Segment) : (pieces.map R.segment).flatMap Segment.tokens =
      (pieces.flatMap Segment.tokens).map R.token := by
    rw [List.flatMap_map, List.map_flatMap]
    simp only [tokens_segment]
  unfold splitAtConnective
  rw [List.takeWhile_map, List.dropWhile_map, ← List.map_drop, hflat, hflat]
  simp only [Function.comp_def, connective?_segment, Option.isNone_map]

theorem relabels_readOperands (h : R.Reads inner inner') (connective : Token)
    (left right : List Token) :
    R.Relabels (List.map R.node) (readOperands inner connective left right)
      (readOperands inner' (R.token connective) (left.map R.token) (right.map R.token)) := by
  unfold readOperands
  simp only [R.kind_token, List.isEmpty_map]
  split
  · split
    · exact relabels_pinned _ _ nofun
    · split
      · exact relabels_pinned _ _ nofun
      · exact (h right).bind fun operand => relabels_pure [operand]
  · split
    · exact relabels_pinned _ _ nofun
    · refine (h left).bind fun leftTree => ?_
      split
      · exact relabels_pinned _ _ nofun
      · exact (h right).bind fun rightTree => relabels_pure [leftTree, rightTree]

theorem relabels_readConditionLevel {options : ReadOptions} (h : R.Reads inner inner')
    (first : Token) (rest : List Token) :
    R.Relabels R.node (readConditionLevel options inner first rest)
      (readConditionLevel options inner' (R.token first) (rest.map R.token)) := by
  have hfind : (R.token first :: rest.map R.token).find? (·.kind.isConnective) =
      ((first :: rest).find? (·.kind.isConnective)).map R.token := by
    rw [← List.map_cons, List.find?_map]
    simp only [Function.comp_def, R.kind_token]
  unfold readConditionLevel
  simp only [hfind]
  cases (first :: rest).find? (·.kind.isConnective) with
  | none => exact relabels_readComparison options (first :: rest)
  | some nested =>
    refine (relabels_ofExcept (splitGroups_map (first :: rest))).bind fun segments => ?_
    rw [filterMap_connective?, splitAtConnective_map]
    cases segments.filterMap Segment.connective? with
    | nil =>
      -- Without a connective at depth zero, the whole of the span has to be one group.
      have hfail : R.Relabels R.node (.fail (.pinned nested .connectiveInParens))
          (.fail (.pinned (R.token nested) .connectiveInParens)) := relabels_pinned _ _ nofun
      cases segments with
      | nil => exact hfail
      | cons piece others =>
        cases others with
        | cons second others => cases piece <;> exact hfail
        | nil =>
          cases piece with
          | token t => exact hfail
          | group opening tokens closing => exact h tokens
    | cons mark others =>
      cases others with
      | cons second others => exact relabels_pinned second .secondConnective nofun
      | nil =>
        refine (relabels_readOperands h mark _ _).bind fun operands => ?_
        refine relabels_noteIf _ _ _ ?_
        have htree := relabels_pure (R := R) (f := R.node)
          (Node.phrase .logicExpr mark.line [.branch mark operands])
        rw [node_phrase, List.map_singleton, node_branch] at htree
        exact htree

/-- What is read from a relabelled span is the relabelled tree, or the relabelled error. -/
theorem relabels_readCondition (options : ReadOptions) :
    R.Reads (readCondition options) (readCondition options) := by
  have hwithin (room : Nat) : R.Reads (readConditionWithin options room)
      (readConditionWithin options room) := by
    induction room with
    | zero =>
      intro span
      cases span with
      | nil => exact relabels_fail (R.error_nowhere .expectedCondition nofun).symm
      | cons first rest => exact relabels_pinned first .nestedTooDeeply nofun
    | succ room ih =>
      intro span
      cases span with
      | nil => exact relabels_fail (R.error_nowhere .expectedCondition nofun).symm
      | cons first rest => exact relabels_readConditionLevel ih first rest
  exact hwithin (maxNesting + 1)

end CalcLang.Relabelling
