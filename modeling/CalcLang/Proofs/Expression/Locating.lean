import CalcLang.Proofs.Parentheses
import CalcLang.Span.Expression

/-! # Where an expression is wrong

    An expression is never read from nothing, so every error in it is pinned to a token:

    * `ParseError.IsLocated`: the errors with a line.
    * `located_readExpression`: an expression that is read from tokens only fails with a line. -/

namespace CalcLang

/-! ### Errors -/

/-- An error that has a line. -/
def ParseError.IsLocated (error : ParseError) : Prop := ∃ line, error.line? = some line

theorem isLocated_pinned (token : Token) (fault : Fault) :
    (ParseError.pinned token fault).IsLocated :=
  ⟨token.line, rfl⟩

open Logged ParseError

variable {inner : List Token → Logged ParseError Node} {segments : List Segment}

/-- A breach of the grammar that is pinned to a token. -/
theorem located_pinned {α : Type} (token : Token) (fault : Fault) :
    FailsWith IsLocated (.fail (.pinned token fault) : Logged ParseError α) :=
  failsWith_fail (isLocated_pinned token fault)

/-! ### Parentheses -/

theorem eq_error_of_bind_pure {ε α β : Type} {x : Except ε α} {g : α → β} {error : ε}
    (h : (x >>= fun a => pure (g a)) = .error error) : x = .error error := by
  cases x with
  | error e =>
    cases h
    rfl
  | ok a => cases h

theorem located_splitFrom {pending : Option OpenGroup} {span : List Token} {error : ParseError}
    (h : splitFrom pending span = .error error) : error.IsLocated := by
  -- The scan fails at a token, or it goes on and fails there.
  fun_induction splitFrom pending span with
  | case1 => cases h
  | case2 | case4 | case8 =>
    cases h
    exact isLocated_pinned ..
  | case3 _ _ _ ih => exact ih h
  | case6 _ _ _ _ ih => exact ih h
  | case7 _ _ _ _ _ _ ih => exact ih h
  | case10 _ _ _ _ _ _ ih => exact ih h
  | case5 _ _ _ _ ih => exact ih (eq_error_of_bind_pure h)
  | case9 _ _ _ _ _ _ ih => exact ih (eq_error_of_bind_pure h)

theorem located_splitGroups (span : List Token) :
    FailsWith IsLocated (.ofExcept (splitGroups span)) :=
  failsWith_ofExcept fun _ h => located_splitFrom h

/-! ### Expressions -/

/-- A reader of spans that fails with a line, unless there is nothing to read. -/
def LocatesErrors (inner : List Token → Logged ParseError Node) : Prop :=
  ∀ span, span ≠ [] → FailsWith IsLocated (inner span)

theorem located_readSiblings (hinner : LocatesErrors inner)
    (hformed : ∀ s ∈ segments, s.WellFormed) :
    FailsWith IsLocated (readSiblings inner segments) := by
  induction segments with
  | nil => exact failsWith_pure []
  | cons segment rest ih =>
    obtain ⟨hsegment, hrest⟩ := List.forall_mem_cons.1 hformed
    cases segment with
    | token token => exact (ih hrest).bind fun _ _ => failsWith_pure _
    | group opening tokens closing =>
      -- A pair of parentheses around nothing has been an error before.
      obtain ⟨-, -, hsome, -⟩ := hsegment
      exact (hinner tokens hsome).bind fun _ _ => (ih hrest).bind fun _ _ => failsWith_pure _

theorem located_foldAt (debug : Bool) (before : List Node) (operator : Node) (after : List Node) :
    FailsWith IsLocated (foldAt debug before operator after) := by
  unfold foldAt
  split
  · apply failsWith_ite (located_pinned _ _)
    apply failsWith_ite (located_pinned _ _)
    exact failsWith_noteIf_bind (failsWith_pure _)
  · exact located_pinned _ _

theorem located_foldTier (debug : Bool) (tier : List Operator) (siblings : List Node) :
    FailsWith IsLocated (foldTier debug tier siblings) := by
  unfold foldTier
  generalize siblings.length = rounds
  induction rounds generalizing siblings with
  | zero => exact failsWith_pure siblings
  | succ rounds ih =>
    rw [foldRounds]
    split
    · exact failsWith_pure siblings
    · exact (located_foldAt _ _ _ _).bind fun folded _ => ih folded

theorem located_applyFunctions (debug : Bool) (siblings : List Node) :
    FailsWith IsLocated (applyFunctions debug siblings) := by
  fun_induction applyFunctions debug siblings with
  | case1 | case3 => exact failsWith_pure _
  | case2 | case5 => exact located_pinned _ _
  | case4 _ _ _ _ _ ih => exact failsWith_noteIf_bind (ih.bind fun _ _ => failsWith_pure _)
  | case6 _ _ _ _ ih => exact ih.bind fun _ _ => failsWith_pure _

theorem located_closeExpression (span : List Token) (first : Token) (siblings : List Node) :
    FailsWith IsLocated (.ofExcept (closeExpression span first siblings)) := by
  apply failsWith_ofExcept
  intro error h
  unfold closeExpression at h
  split at h
  · cases h
    exact isLocated_pinned ..
  · split at h
    · cases h
      exact isLocated_pinned ..
    · split at h <;> cases h
  · cases h
    exact isLocated_pinned ..

theorem located_readLevel (options : ReadOptions) (hinner : LocatesErrors inner) (first : Token)
    (rest : List Token) : FailsWith IsLocated (readLevel options inner first rest) := by
  unfold readLevel
  refine failsWith_ite (failsWith_pure _) ?_
  split
  · exact located_pinned _ _
  · apply failsWith_noteIf_bind
    refine (located_splitGroups _).bind fun segments hsegments => ?_
    obtain ⟨hformed, -⟩ := splitGroups_eq_ok_iff.1 hsegments
    exact (located_readSiblings hinner hformed).bind fun siblings _ =>
      (located_foldTier _ _ siblings).bind fun once _ =>
        (located_foldTier _ _ once).bind fun twice _ =>
          (located_applyFunctions _ twice).bind fun applied _ =>
            located_closeExpression _ first applied

/-- An expression that is read from some tokens only fails with a line. -/
theorem located_readExpression (options : ReadOptions) : LocatesErrors (readExpression options) := by
  unfold readExpression
  generalize maxNesting + 1 = room
  induction room with
  | zero =>
    intro span hsome
    cases span with
    | nil => exact absurd rfl hsome
    | cons first rest => exact located_pinned first .nestedTooDeeply
  | succ room ih =>
    intro span hsome
    cases span with
    | nil => exact absurd rfl hsome
    | cons first rest => exact located_readLevel options ih first rest

end CalcLang
