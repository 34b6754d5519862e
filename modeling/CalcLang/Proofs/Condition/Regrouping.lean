import CalcLang.Proofs.Condition.Language
import CalcLang.Proofs.Expression.Regrouping

/-! # Conditions under two precedences

    Conditions are read around the expressions in them, so the order of folding matters to a
    condition as little as to its expressions:

    * `regroups_readCondition`: words on a line are read as a condition under both precedences, or
      they are an error on that line under both. -/

namespace CalcLang

open ParseError

variable {α β γ : Type} {value : β → γ → Prop} {options : ReadOptions} {one two : Precedence}
  {line : Nat} {inner inner' : List Token → Logged ParseError Node} {span left right : List Token}
  {segments : List Segment}

/-! ### The same step on both sides -/

theorem paired_fail (error : ParseError) :
    PairedResults value SamePlace (Logged.fail error).result (Logged.fail error).result :=
  .error (samePlace_refl error)

theorem paired_bind {x : Logged ParseError α} {f : α → Logged ParseError β}
    {g : α → Logged ParseError γ}
    (hnext : ∀ a, x.result = .ok a → PairedResults value SamePlace (f a).result (g a).result) :
    PairedResults value SamePlace (x >>= f).result (x >>= g).result := by
  have hsame := PairedResults.refl (R := Eq) (fun _ => rfl) samePlace_refl x.result
  apply hsame.bind
  rintro a _ ha rfl
  exact hnext a ha

/-! ### Comparisons -/

theorem peelParens_subset (span : List Token) : peelParens span ⊆ span := by
  -- What is left by peeling is inside of every pair that is peeled.
  apply peelParens_induction (P := fun tokens => peelParens span ⊆ tokens)
  · exact List.Subset.refl _
  · intro opening tokens closing _ _ htokens t ht
    exact List.mem_append_left _ (List.mem_cons_of_mem _ (htokens ht))

theorem splitAtFirst_subset (property : Token → Bool) (span : List Token) :
    (splitAtFirst property span).1 ⊆ span ∧ (splitAtFirst property span).2 ⊆ span := by
  constructor
  · exact (List.takeWhile_prefix _).subset
  · exact List.Subset.trans (List.drop_subset _ _) (List.dropWhile_suffix _).subset

theorem regroups_readComparison (options : ReadOptions) (one two : Precedence) (line : Nat) :
    Regroups line (readComparison { options with precedence := one })
      (readComparison { options with precedence := two }) := by
  intro span h
  have hpeeled := h.mono (peelParens_subset span)
  unfold readComparison
  generalize peelParens span = peeled at hpeeled ⊢
  cases peeled with
  | nil => exact paired_fail _
  | cons first rest =>
    dsimp only
    generalize (first :: rest).filter (·.kind.isComparison) = marks
    rcases marks with _ | ⟨mark, _ | ⟨second, others⟩⟩
    · exact paired_fail _
    · refine paired_bind fun segments _ => ?_
      obtain ⟨hleft, hright⟩ := splitAtFirst_subset (·.kind.isComparison) (first :: rest)
      generalize splitAtFirst (·.kind.isComparison) (first :: rest) = sides at hleft hright ⊢
      split
      · exact paired_fail _
      · split
        · exact paired_fail _
        · have hread := regroups_readExpression options one two line
          refine paired_bind fun _ _ => ?_
          refine (hread _ (hpeeled.mono hleft)).bind fun leftTree leftTree' _ hleftTree => ?_
          refine (hread _ (hpeeled.mono hright)).bind fun rightTree rightTree' _ hrightTree => ?_
          have hmark := regrouped_branch mark (.cons hleftTree (.cons hrightTree .nil))
          exact .ok (regrouped_branch _ (.cons hmark .nil))
    · exact paired_fail _

/-! ### Connectives -/

/-- The two sides of a connective are parts of the span. -/
theorem splitAtConnective_subset (segments : List Segment) :
    (splitAtConnective segments).1 ⊆ segments.flatMap Segment.tokens ∧
      (splitAtConnective segments).2 ⊆ segments.flatMap Segment.tokens := by
  have hpieces {pieces : List Segment} (hsub : pieces ⊆ segments) :
      pieces.flatMap Segment.tokens ⊆ segments.flatMap Segment.tokens := by
    intro t ht
    obtain ⟨piece, hpiece, hmem⟩ := List.mem_flatMap.1 ht
    exact List.mem_flatMap.2 ⟨piece, hsub hpiece, hmem⟩
  constructor
  · exact hpieces (List.takeWhile_prefix _).subset
  · exact hpieces (List.Subset.trans (List.drop_subset _ _) (List.dropWhile_suffix _).subset)

theorem paired_readOperands (hinner : Regroups line inner inner') (mark : Token)
    (hleft : AreOnLine line left) (hright : AreOnLine line right) :
    PairedResults (List.Forall₂ Regrouped) SamePlace (readOperands inner mark left right).result
      (readOperands inner' mark left right).result := by
  unfold readOperands
  split
  · split
    · exact paired_fail _
    · split
      · exact paired_fail _
      · exact (hinner right hright).bind fun _ _ _ htree => .ok (.cons htree .nil)
  · split
    · exact paired_fail _
    · refine (hinner left hleft).bind fun leftTree leftTree' _ hleftTree => ?_
      split
      · exact paired_fail _
      · exact (hinner right hright).bind fun _ _ _ hrightTree =>
          .ok (.cons hleftTree (.cons hrightTree .nil))

theorem paired_readConditionLevel (hinner : Regroups line inner inner') (options : ReadOptions)
    (one two : Precedence) {first : Token} {rest : List Token}
    (h : AreOnLine line (first :: rest)) :
    PairedResults Regrouped SamePlace
      (readConditionLevel { options with precedence := one } inner first rest).result
      (readConditionLevel { options with precedence := two } inner' first rest).result := by
  unfold readConditionLevel
  dsimp only
  cases (first :: rest).find? (·.kind.isConnective) with
  | none => exact regroups_readComparison options one two line _ h
  | some nested =>
    refine paired_bind fun segments hsegments => ?_
    obtain ⟨-, hspell⟩ := splitGroups_eq_ok_iff.1 hsegments
    rw [← hspell] at h
    generalize segments.filterMap Segment.connective? = marks
    rcases marks with _ | ⟨mark, _ | ⟨second, others⟩⟩
    · -- The only group is read again, without its parentheses.
      dsimp only
      split
      · next opening tokens closing =>
        apply hinner
        apply h.mono
        intro t ht
        rw [List.flatMap_singleton]
        exact List.mem_append_left _ (List.mem_cons_of_mem _ ht)
      · exact paired_fail _
    · obtain ⟨hleft, hright⟩ := splitAtConnective_subset segments
      have hoperands := paired_readOperands hinner mark (h.mono hleft) (h.mono hright)
      refine hoperands.bind fun operands operands' _ htrees => paired_bind fun _ _ => ?_
      exact .ok (regrouped_branch _ (.cons (regrouped_branch mark htrees) .nil))
    · exact paired_fail _

/-! ### Main result -/

/-- A line is read as a condition under both precedences or under none.  The trees are the same but
    for the grouping, and the errors are on the same line. -/
theorem regroups_readCondition (options : ReadOptions) (one two : Precedence) (line : Nat) :
    Regroups line (readCondition { options with precedence := one })
      (readCondition { options with precedence := two }) := by
  unfold readCondition
  -- Parts of a condition are read with less room, so the induction is on the room.
  generalize maxNesting + 1 = room
  induction room with
  | zero =>
    intro span _
    cases span <;> exact paired_fail _
  | succ room ih =>
    intro span h
    cases span with
    | nil => exact paired_fail _
    | cons first rest => exact paired_readConditionLevel ih options one two h

end CalcLang
