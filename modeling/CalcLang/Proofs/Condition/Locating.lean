import CalcLang.Proofs.Condition.Language
import CalcLang.Proofs.Expression.Locating

/-! # Where a condition is wrong

    Parentheses around a condition are peeled off before it is looked at, and a pair of parentheses
    around nothing leaves nothing to pin an error to:

    * `HasEmptyPair`: a pair of parentheses around nothing is among some tokens.
    * `located_readCondition`: a condition that is read from some tokens fails with a line, or there
      is such a pair among them. -/

namespace CalcLang

open Logged ParseError

variable {inner : List Token → Logged ParseError Node} {options : ReadOptions}
  {span inside left right tokens more : List Token}

/-! ### Parentheses around nothing -/

/-- Among some tokens, a parenthesis is closed right behind the one that opens it. -/
def HasEmptyPair (tokens : List Token) : Prop :=
  ∃ opening closing, [opening, closing] <:+: tokens ∧
    opening.kind = .openParen ∧ closing.kind = .closeParen

theorem HasEmptyPair.mono (h : HasEmptyPair tokens) (hmore : tokens <:+: more) :
    HasEmptyPair more := by
  obtain ⟨opening, closing, hpair, hopen, hclose⟩ := h
  exact ⟨opening, closing, hpair.trans hmore, hopen, hclose⟩

theorem infix_group (opening : Token) (span : List Token) (closing : Token) :
    span <:+: opening :: span ++ [closing] :=
  ⟨[opening], [closing], rfl⟩

/-- If peeling leaves nothing of some tokens, then there are parentheses around nothing. -/
theorem hasEmptyPair_of_peelParens (hsome : span ≠ []) (h : peelParens span = []) :
    HasEmptyPair span := by
  have hpeel : span = [] ∨ HasEmptyPair span := by
    -- Each pair that is peeled holds something, until one holds nothing.
    apply peelParens_induction (P := fun span => span = [] ∨ HasEmptyPair span)
    · exact .inl h
    · intro opening inner closing hopen hclose hinner
      right
      rcases hinner with rfl | hinner
      · exact ⟨opening, closing, ⟨[], [], rfl⟩, hopen, hclose⟩
      · exact hinner.mono (infix_group opening inner closing)
  exact hpeel.resolve_left hsome

/-- An error that has a line, or one about a pair of parentheses around nothing. -/
def ParseError.IsLocatedIn (span : List Token) (error : ParseError) : Prop :=
  error.IsLocated ∨ error = .nowhere .expectedCondition ∧ HasEmptyPair span

theorem ParseError.IsLocatedIn.mono {error : ParseError} (h : error.IsLocatedIn inside)
    (hinside : inside <:+: span) : error.IsLocatedIn span := by
  rcases h with h | ⟨herror, hpair⟩
  · exact .inl h
  · exact .inr ⟨herror, hpair.mono hinside⟩

/-- A reader of spans that fails with a line, unless there is nothing to read. -/
def LocatesErrorsIn (inner : List Token → Logged ParseError Node) : Prop :=
  ∀ span, span ≠ [] → FailsWith (IsLocatedIn span) (inner span)

theorem LocatesErrorsIn.mono (h : LocatesErrorsIn inner) (hsome : inside ≠ [])
    (hinside : inside <:+: span) : FailsWith (IsLocatedIn span) (inner inside) :=
  (h inside hsome).mono fun _ herror => herror.mono hinside

theorem locatedIn_pinned {α : Type} (span : List Token) (token : Token) (fault : Fault) :
    FailsWith (IsLocatedIn span) (.fail (.pinned token fault) : Logged ParseError α) :=
  failsWith_fail (.inl (isLocated_pinned token fault))

/-! ### Comparisons -/

theorem located_readComparison (options : ReadOptions) : LocatesErrorsIn (readComparison options) := by
  intro span hsome
  unfold readComparison
  cases hpeel : peelParens span with
  | nil => exact failsWith_fail (.inr ⟨rfl, hasEmptyPair_of_peelParens hsome hpeel⟩)
  | cons first rest =>
    dsimp only
    split
    · exact locatedIn_pinned span _ _
    · exact locatedIn_pinned span _ _
    · refine ((located_splitGroups _).mono fun _ => .inl).bind fun segments _ => ?_
      refine failsWith_ite (locatedIn_pinned span _ _) ?_
      split
      · exact locatedIn_pinned span _ _
      · next hsides =>
        rw [Bool.or_eq_true, not_or] at hsides
        have hleft := located_readExpression options _ (mt List.isEmpty_iff.2 hsides.1)
        have hright := located_readExpression options _ (mt List.isEmpty_iff.2 hsides.2)
        apply failsWith_noteIf_bind
        exact (hleft.mono fun _ => .inl).bind fun _ _ =>
          (hright.mono fun _ => .inl).bind fun _ _ => failsWith_pure _

/-! ### Connectives -/

theorem located_readOperands (hinner : LocatesErrorsIn inner) (connective : Token)
    (hleft : left <:+: span) (hright : right <:+: span) :
    FailsWith (IsLocatedIn span) (readOperands inner connective left right) := by
  unfold readOperands
  split
  · refine failsWith_ite (locatedIn_pinned span _ _) ?_
    split
    · exact locatedIn_pinned span _ _
    · next hsome =>
      exact (hinner.mono (mt List.isEmpty_iff.2 hsome) hright).bind fun _ _ => failsWith_pure _
  · split
    · exact locatedIn_pinned span _ _
    · next hsome =>
      refine (hinner.mono (mt List.isEmpty_iff.2 hsome) hleft).bind fun leftTree _ => ?_
      split
      · exact locatedIn_pinned span _ _
      · next hsome' =>
        exact (hinner.mono (mt List.isEmpty_iff.2 hsome') hright).bind fun _ _ =>
          failsWith_pure _

theorem located_readConditionLevel (hinner : LocatesErrorsIn inner) (first : Token)
    (rest : List Token) :
    FailsWith (IsLocatedIn (first :: rest)) (readConditionLevel options inner first rest) := by
  unfold readConditionLevel
  dsimp only
  split
  · exact located_readComparison options _ (List.cons_ne_nil _ _)
  · next nested hfind =>
    refine ((located_splitGroups _).mono fun _ => .inl).bind fun segments hsegments => ?_
    obtain ⟨hformed, hspell⟩ := splitGroups_eq_ok_iff.1 hsegments
    rw [← hspell]
    rcases hmarks : segments.filterMap Segment.connective? with _ | ⟨mark, _ | ⟨second, others⟩⟩
    · -- The only group is read again, without its parentheses.
      dsimp only
      split
      · next opening tokens closing =>
        obtain ⟨-, -, hsome, -⟩ := hformed _ (List.mem_singleton_self _)
        rw [List.flatMap_singleton]
        exact hinner.mono hsome (infix_group opening tokens closing)
      · exact locatedIn_pinned _ _ _
    · obtain ⟨before, after, rfl, hmark, hbefore, -⟩ := exists_split_of_connectives hmarks
      rw [splitAtConnective_append hmark hbefore, List.flatMap_append, List.flatMap_cons]
      refine (located_readOperands hinner mark ?_ ?_).bind fun _ _ =>
        failsWith_noteIf_bind (failsWith_pure _)
      · exact ⟨[], _, rfl⟩
      · exact ⟨before.flatMap Segment.tokens ++ [mark], [], by simp [Segment.tokens]⟩
    · exact locatedIn_pinned _ _ _

theorem located_readCondition (options : ReadOptions) : LocatesErrorsIn (readCondition options) := by
  unfold readCondition
  generalize maxNesting + 1 = room
  induction room with
  | zero =>
    intro span hsome
    cases span with
    | nil => exact absurd rfl hsome
    | cons first rest => exact locatedIn_pinned _ first .nestedTooDeeply
  | succ room ih =>
    intro span hsome
    cases span with
    | nil => exact absurd rfl hsome
    | cons first rest => exact located_readConditionLevel ih first rest

end CalcLang
