import CalcLang.Span.Condition

/-! # The trace of a span

    The readers of spans leave records of what they do, if the options ask for that.  The records are
    all that a trace adds:

    * `Logged.Traces`: a computation does what another one does that leaves no record, and traces it.
      It holds of whatever is put together from computations of which it holds.
    * `traces_readExpression`, `traces_readCondition`: expressions and conditions are read so. -/

namespace CalcLang

namespace Logged

variable {ε α β : Type} {x y x' y' : Logged ε α} {f g : α → Logged ε β}

/-- A computation that gives what another one gives.  It only traces what it does, and the other one
    leaves no record. -/
structure Traces (x y : Logged ε α) : Prop where
  result : x.result = y.result
  debug : ∀ record ∈ x.records, record.level = .debug
  silent : y.records = []

/-- A computation that leaves no record traces itself. -/
theorem Traces.of_silent (h : x.records = []) : Traces x x := by
  refine ⟨rfl, ?_, h⟩
  rw [h]
  exact nofun

theorem traces_pure (a : α) : Traces (pure a : Logged ε α) (pure a) := .of_silent rfl

theorem traces_fail (error : ε) : Traces (fail error : Logged ε α) (fail error) := .of_silent rfl

theorem traces_ofExcept (result : Except ε α) : Traces (ofExcept result) (ofExcept result) :=
  .of_silent rfl

theorem traces_noteIf (debug : Bool) (text : String) :
    Traces (noteIf debug .debug text : Logged ε Unit) (noteIf false .debug text) := by
  refine ⟨by rw [result_noteIf, result_noteIf], ?_, rfl⟩
  rw [records_noteIf]
  intro record hrecord
  split at hrecord
  · rw [List.mem_singleton.1 hrecord]
  · cases hrecord

theorem Traces.bind (hx : Traces x y) (hf : ∀ a, Traces (f a) (g a)) :
    Traces (x >>= f) (y >>= g) := by
  obtain ⟨hresult, hdebug, hsilent⟩ := hx
  cases hrun : y.result with
  | error error =>
    rw [bind_of_error f (hresult.trans hrun), bind_of_error g hrun]
    exact ⟨rfl, hdebug, hsilent⟩
  | ok a =>
    rw [bind_of_ok f (hresult.trans hrun), bind_of_ok g hrun]
    refine ⟨(hf a).result, List.forall_mem_append.2 ⟨hdebug, (hf a).debug⟩, ?_⟩
    rw [hsilent, (hf a).silent, List.nil_append]

theorem traces_ite {c : Prop} [Decidable c] (h : Traces x y) (h' : Traces x' y') :
    Traces (if c then x else x') (if c then y else y') := by
  split
  · exact h
  · exact h'

end Logged

open Logged

variable {inner inner' : List Token → Logged ParseError Node}

/-! ### Folding -/

theorem traces_foldAt (debug : Bool) (before : List Node) (operator : Node) (after : List Node) :
    Traces (foldAt debug before operator after) (foldAt false before operator after) := by
  unfold foldAt
  split
  · refine traces_ite (traces_fail _) (traces_ite (traces_fail _) ?_)
    exact (traces_noteIf debug _).bind fun _ => traces_pure _
  · exact traces_fail _

theorem traces_foldTier (debug : Bool) (tier : List Operator) (siblings : List Node) :
    Traces (foldTier debug tier siblings) (foldTier false tier siblings) := by
  unfold foldTier
  generalize siblings.length = rounds
  -- A round goes on with the siblings that the one before it left, so these vary.
  induction rounds generalizing siblings with
  | zero => exact traces_pure siblings
  | succ rounds ih =>
    rw [foldRounds, foldRounds]
    split
    · exact traces_pure siblings
    · exact (traces_foldAt debug _ _ _).bind ih

theorem traces_applyFunctions (debug : Bool) (siblings : List Node) :
    Traces (applyFunctions debug siblings) (applyFunctions false siblings) := by
  fun_induction applyFunctions debug siblings with
  | case1 => exact traces_pure []
  | case2 node h =>
    rw [applyFunctions, if_pos h]
    exact traces_fail _
  | case3 node h =>
    rw [applyFunctions, if_neg h]
    exact traces_pure _
  | case4 node next rest h harg ih =>
    rw [applyFunctions, if_pos h, if_pos harg]
    exact (traces_noteIf debug _).bind fun _ => ih.bind fun _ => traces_pure _
  | case5 node next rest h harg =>
    rw [applyFunctions, if_pos h, if_neg harg]
    exact traces_fail _
  | case6 node next rest h ih =>
    rw [applyFunctions, if_neg h]
    exact ih.bind fun _ => traces_pure _

/-! ### Expressions -/

theorem traces_readSiblings (hinner : ∀ span, Traces (inner span) (inner' span))
    (segments : List Segment) :
    Traces (readSiblings inner segments) (readSiblings inner' segments) := by
  induction segments with
  | nil => exact traces_pure []
  | cons segment rest ih =>
    cases segment with
    | token token => exact ih.bind fun _ => traces_pure _
    | group opening tokens closing =>
      exact (hinner tokens).bind fun _ => ih.bind fun _ => traces_pure _

theorem traces_readLevel (options : ReadOptions)
    (hinner : ∀ span, Traces (inner span) (inner' span)) (first : Token) (rest : List Token) :
    Traces (readLevel options inner first rest)
      (readLevel { options with debug := false } inner' first rest) := by
  unfold readLevel
  refine traces_ite (traces_pure _) ?_
  split
  · exact traces_fail _
  · exact (traces_noteIf options.debug _).bind fun _ => (traces_ofExcept _).bind fun segments =>
      (traces_readSiblings hinner segments).bind fun siblings =>
        (traces_foldTier options.debug _ siblings).bind fun once =>
          (traces_foldTier options.debug _ once).bind fun twice =>
            (traces_applyFunctions options.debug twice).bind fun _ => traces_ofExcept _

/-- What is read of an expression does not depend on whether it is traced. -/
theorem traces_readExpression (options : ReadOptions) (span : List Token) :
    Traces (readExpression options span)
      (readExpression { options with debug := false } span) := by
  unfold readExpression
  generalize maxNesting + 1 = room
  -- The induction is on the room for groups in groups, for all spans at once.
  induction room generalizing span with
  | zero => cases span <;> exact traces_fail _
  | succ room ih =>
    cases span with
    | nil => exact traces_fail _
    | cons first rest => exact traces_readLevel options ih first rest

/-! ### Conditions -/

theorem traces_readComparison (options : ReadOptions) (span : List Token) :
    Traces (readComparison options span)
      (readComparison { options with debug := false } span) := by
  unfold readComparison
  split
  · exact traces_fail _
  · dsimp only
    split
    · exact traces_fail _
    · exact traces_fail _
    · refine (traces_ofExcept _).bind fun segments => traces_ite (traces_fail _) ?_
      refine traces_ite (traces_fail _) ?_
      exact (traces_noteIf options.debug _).bind fun _ =>
        (traces_readExpression options _).bind fun _ =>
          (traces_readExpression options _).bind fun _ => traces_pure _

theorem traces_readOperands (hinner : ∀ span, Traces (inner span) (inner' span))
    (connective : Token) (left right : List Token) :
    Traces (readOperands inner connective left right)
      (readOperands inner' connective left right) := by
  unfold readOperands
  refine traces_ite ?_ ?_
  · refine traces_ite (traces_fail _) (traces_ite (traces_fail _) ?_)
    exact (hinner right).bind fun _ => traces_pure _
  · refine traces_ite (traces_fail _) ((hinner left).bind fun _ => ?_)
    exact traces_ite (traces_fail _) ((hinner right).bind fun _ => traces_pure _)

theorem traces_readConditionLevel (options : ReadOptions)
    (hinner : ∀ span, Traces (inner span) (inner' span)) (first : Token) (rest : List Token) :
    Traces (readConditionLevel options inner first rest)
      (readConditionLevel { options with debug := false } inner' first rest) := by
  unfold readConditionLevel
  dsimp only
  split
  · exact traces_readComparison options _
  · refine (traces_ofExcept _).bind fun segments => ?_
    split
    · split
      · exact hinner _
      · exact traces_fail _
    · exact traces_fail _
    · exact (traces_readOperands hinner _ _ _).bind fun _ =>
        (traces_noteIf options.debug _).bind fun _ => traces_pure _

/-- What is read of a condition does not, either. -/
theorem traces_readCondition (options : ReadOptions) (span : List Token) :
    Traces (readCondition options span) (readCondition { options with debug := false } span) := by
  unfold readCondition
  generalize maxNesting + 1 = room
  induction room generalizing span with
  | zero => cases span <;> exact traces_fail _
  | succ room ih =>
    cases span with
    | nil => exact traces_fail _
    | cons first rest => exact traces_readConditionLevel options ih first rest

end CalcLang
