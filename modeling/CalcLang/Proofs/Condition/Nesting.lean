import CalcLang.Proofs.Condition.Language
import CalcLang.Proofs.Condition.Relabelling

/-! # How deep a condition may be nested

    Of the pairs of parentheses around a word, those that hold a connective are counted when a
    condition is read, and those that hold no comparison are counted when an expression is.  Neither
    count may exceed `maxNesting`.  The pairs between them, around a comparison, are peeled off and not
    counted at all.

    * `Enclosed`: what the pairs of parentheses around a word hold.
    * `IsCondition.isShallow`: the two counts of a condition are bounded.
    * `readCondition_nested`: what is nested deeper is not read.
    * `readCondition_wrapped`: any number of parentheses may stand around a comparison. -/

namespace CalcLang

variable {token mark opening closing : Token} {before after left right inner span : List Token}
  {insides : List (List Token)} {options : ReadOptions} {tree : Node} {level : Nat}

/-! ### Pairs around a word -/

/-- `Enclosed token insides span`: in `span`, matching pairs of parentheses are around `token`, one
    inside the other.  What they hold is `insides`, the outermost pair first. -/
inductive Enclosed (token : Token) : List (List Token) → List Token → Prop
  /-- No pair is counted. -/
  | here {span : List Token} (h : token ∈ span) : Enclosed token [] span
  /-- A pair somewhere in the span, and further ones inside of it. -/
  | inside {before inner after : List Token} {opening closing : Token}
    {insides : List (List Token)} (hopen : opening.kind = .openParen)
    (hclose : closing.kind = .closeParen) (hinner : Balanced inner)
    (h : Enclosed token insides inner) :
    Enclosed token (inner :: insides) (before ++ (opening :: inner ++ closing :: after))

/-- A parenthesis that is not closed is in no balanced span, whatever balanced span goes on behind
    it. -/
theorem not_balanced_of_open (hopen : opening.kind = .openParen) (hinner : Balanced (left ++ right)) :
    ¬ Balanced (before ++ opening :: left) := by
  intro h
  rw [Balanced, depthAfter_append] at h hinner
  obtain ⟨within, hwithin, -⟩ := Option.bind_eq_some_iff.1 hinner
  obtain ⟨depth, -, hopened⟩ := Option.bind_eq_some_iff.1 h
  rw [depthAfter_open hopen] at hopened
  have hmore := depthAfter_add (depth + 1) hwithin
  rw [Nat.zero_add, hopened] at hmore
  cases hmore

/-- Nor is a parenthesis that closes nothing. -/
theorem not_balanced_of_close (hclose : closing.kind = .closeParen) (hleft : Balanced left) :
    ¬ Balanced (left ++ closing :: right) := by
  intro h
  rw [Balanced, depthAfter_append, hleft] at h
  have hnone : depthAfter 0 (closing :: right) = some 0 := h
  rw [depthAfter_close_zero hclose] at hnone
  cases hnone

namespace Enclosed

theorem eq_nil (h : Enclosed token insides []) : insides = [] := by
  generalize hspan : ([] : List Token) = span at h
  cases h with
  | here => rfl
  | inside => simp at hspan

/-- Behind a balanced part of a span, no pair reaches from one part into the other. -/
theorem of_append (hleft : Balanced left) (h : Enclosed token insides (left ++ right)) :
    Enclosed token insides left ∨ Enclosed token insides right := by
  generalize hspan : left ++ right = span at h
  cases h with
  | here htoken =>
    rw [← hspan] at htoken
    exact (List.mem_append.1 htoken).imp .here .here
  | @inside before inner after opening closing rest hopen hclose hinner h =>
    rcases List.append_eq_append_iff.1 hspan with ⟨more, -, rfl⟩ | ⟨part, rfl, hpart⟩
    · exact .inr (.inside hopen hclose hinner h)
    cases part with
    | nil =>
      have hright : right = [] ++ (opening :: inner ++ closing :: after) := hpart.symm
      rw [hright]
      exact .inr (.inside hopen hclose hinner h)
    | cons first part =>
      obtain ⟨rfl, htail⟩ := List.cons.inj hpart
      have hrest : inner ++ closing :: after = part ++ right := htail
      rcases List.append_eq_append_iff.1 hrest with ⟨more, rfl, hmore⟩ | ⟨more, rfl, -⟩
      · cases more with
        | nil =>
          rw [List.append_nil] at hleft
          have hwhole : Balanced (inner ++ []) := by
            rw [List.append_nil]
            exact hinner
          exact absurd hleft (not_balanced_of_open hopen hwhole)
        | cons last more =>
          obtain ⟨rfl, rfl⟩ := List.cons.inj hmore
          exact .inl (.inside hopen hclose hinner h)
      · -- The pair would be closed in the right part only.
        exact absurd hleft (not_balanced_of_open hopen hinner)

theorem of_cons (hmark : mark.kind.isParen = false) (h : Enclosed token insides (mark :: right)) :
    insides = [] ∨ Enclosed token insides right := by
  have hone : Balanced [mark] := .word hmark .nil
  have happend : Enclosed token insides ([mark] ++ right) := h
  rcases of_append hone happend with h | h
  · generalize hspan : [mark] = span at h
    cases h with
    | here => exact .inl rfl
    | @inside before =>
      have hlength := congrArg List.length hspan
      simp at hlength
      omega
  · exact .inr h

/-- The outermost pair in a pair of parentheses is that pair, or it is in it. -/
theorem of_group (hinner : Balanced inner)
    (h : Enclosed token insides (opening :: inner ++ [closing])) :
    insides = [] ∨ Enclosed token insides inner ∨
      ∃ rest, insides = inner :: rest ∧ Enclosed token rest inner := by
  generalize hspan : opening :: inner ++ [closing] = span at h
  cases h with
  | here => exact .inl rfl
  | @inside before held after o c rest hopen hclose hheld h =>
    -- The last token of the span closes the pair, or it stands behind it.
    rcases List.eq_nil_or_concat after with rfl | ⟨after, last, rfl⟩
    · cases before with
      | nil =>
        obtain ⟨rfl, hinside⟩ := List.cons.inj hspan
        obtain rfl : inner = held := List.append_inj_left' hinside rfl
        exact .inr (.inr ⟨rest, rfl, h⟩)
      | cons first before =>
        obtain ⟨rfl, hinside⟩ := List.cons.inj hspan
        have hsame : inner ++ [closing] = (before ++ o :: held) ++ [c] := by
          rw [List.append_assoc]
          exact hinside
        obtain rfl := List.append_inj_left' hsame rfl
        have hwhole : Balanced (held ++ []) := by
          rw [List.append_nil]
          exact hheld
        exact absurd hinner (not_balanced_of_open hopen hwhole)
    · rw [List.concat_eq_append] at hspan
      cases before with
      | nil =>
        obtain ⟨rfl, hinside⟩ := List.cons.inj hspan
        have hsame : inner ++ [closing] = (held ++ c :: after) ++ [last] := by
          rw [List.append_assoc]
          exact hinside
        obtain rfl := List.append_inj_left' hsame rfl
        exact absurd hinner (not_balanced_of_close hclose hheld)
      | cons first before =>
        obtain ⟨rfl, hinside⟩ := List.cons.inj hspan
        have hsame : inner ++ [closing] = (before ++ (o :: held ++ c :: after)) ++ [last] := by
          rw [List.append_assoc, List.append_assoc]
          exact hinside
        obtain rfl := List.append_inj_left' hsame rfl
        exact .inr (.inl (.inside hopen hclose hheld h))

/-- What stands behind a span does not matter to the pairs in it. -/
theorem append_right (h : Enclosed token insides span) (more : List Token) :
    Enclosed token insides (span ++ more) := by
  cases h with
  | here htoken => exact .here (List.mem_append_left _ htoken)
  | @inside before inner after opening closing rest hopen hclose hinner h =>
    have hpair : Enclosed token _ (before ++ (opening :: inner ++ closing :: (after ++ more))) :=
      .inside hopen hclose hinner h
    have hsame : before ++ (opening :: inner ++ closing :: after) ++ more =
        before ++ (opening :: inner ++ closing :: (after ++ more)) := by
      simp
    rw [hsame]
    exact hpair

/-- What the pairs hold is part of the span. -/
theorem subset (h : Enclosed token insides span) : ∀ held ∈ insides, held ⊆ span := by
  induction h with
  | here => nofun
  | @inside before inner after opening closing insides hopen hclose hinner h ih =>
    have hinside : inner ⊆ before ++ (opening :: inner ++ closing :: after) := by
      intro t ht
      simp [ht]
    rw [List.forall_mem_cons]
    exact ⟨hinside, fun held hheld => List.Subset.trans (ih held hheld) hinside⟩

end Enclosed

/-! ### Expressions -/

mutual

/-- No more pairs are around a word of an operand than its depth says. -/
theorem Operand.length_le_depth : (operand : Operand) → ∀ insides,
    Enclosed token insides operand.tokens → insides.length ≤ operand.depth
  | .numeral word hnumeral => by
    intro insides h
    rcases h.of_cons (Kind.isParen_of_isNumeral hnumeral) with rfl | hbehind
    · exact Nat.le_refl _
    · rw [hbehind.eq_nil]
      exact Nat.le_refl _
  | .group opening inner closing hopen hclose => by
    intro insides h
    rcases h.of_group inner.balanced with rfl | hinside | ⟨rest, rfl, hinside⟩
    · exact Nat.zero_le _
    · exact Nat.le_succ_of_le (inner.length_le_depth _ hinside)
    · exact Nat.succ_le_succ (inner.length_le_depth _ hinside)

theorem Links.length_le_depth : (links : Links) → ∀ insides,
    Enclosed token insides links.tokens → insides.length ≤ links.depth
  | .nil => by
    intro insides h
    rw [h.eq_nil]
    exact Nat.le_refl _
  | .cons operator right rest hoperator => by
    intro insides h
    rcases h.of_cons (Kind.isParen_of_isOperator hoperator) with rfl | hbehind
    · exact Nat.zero_le _
    · rcases hbehind.of_append right.balanced with hright | hrest
      · exact Nat.le_trans (right.length_le_depth _ hright) (Nat.le_max_left _ _)
      · exact Nat.le_trans (rest.length_le_depth _ hrest) (Nat.le_max_right _ _)

theorem Expression.length_le_depth : (expression : Expression) → ∀ insides,
    Enclosed token insides expression.tokens → insides.length ≤ expression.depth
  | .chain first links => by
    intro insides h
    rcases h.of_append first.balanced with hfirst | hlinks
    · exact Nat.le_trans (first.length_le_depth _ hfirst) (Nat.le_max_left _ _)
    · exact Nat.le_trans (links.length_le_depth _ hlinks) (Nat.le_max_right _ _)
  | .call function argument hfunction => by
    intro insides h
    rcases h.of_cons (Kind.isParen_of_isFunction hfunction) with rfl | hbehind
    · exact Nat.zero_le _
    · exact argument.length_le_depth _ hbehind

end

theorem length_le_of_readExpression (hline : IsLine span)
    (hread : (readExpression options span).result = .ok tree)
    (h : Enclosed token insides span) : insides.length ≤ maxNesting := by
  obtain ⟨expression, rfl, hdepth⟩ := exists_expression_of_read hline hread
  exact Nat.le_trans (expression.length_le_depth _ h) (Nat.le_of_lt_succ hdepth)

/-! ### Conditions -/

/-- A span with a comparison in it, at whatever depth. -/
def hasComparison (span : List Token) : Bool :=
  span.any (·.kind.isComparison)

/-- What the pairs around a word of a condition may hold: no more of them hold a connective than the
    level of the condition says, and no more than `maxNesting` of them hold no comparison. -/
structure IsShallow (level : Nat) (insides : List (List Token)) : Prop where
  connectives : insides.countP hasConnective ≤ level
  operands : insides.countP (!hasComparison ·) ≤ maxNesting

theorem isShallow_nil (level : Nat) : IsShallow level [] :=
  ⟨Nat.zero_le _, Nat.zero_le _⟩

theorem IsShallow.mono {level' : Nat} (h : IsShallow level insides) (hle : level ≤ level') :
    IsShallow level' insides :=
  ⟨Nat.le_trans h.connectives hle, h.operands⟩

/-- A pair that holds a comparison is counted if it holds a connective as well. -/
theorem IsShallow.cons (h : IsShallow level insides) (hcomparison : hasComparison inner = true) :
    IsShallow (if hasConnective inner then level + 1 else level) (inner :: insides) where
  connectives := by
    rw [List.countP_cons]
    have hrest := h.connectives
    split <;> omega
  operands := by
    rw [List.countP_cons_of_neg]
    · exact h.operands
    · rw [hcomparison]
      exact Bool.false_ne_true

/-- No pair in a span without connectives holds one. -/
theorem Enclosed.countP_eq_zero (h : Enclosed token insides span)
    (hnone : hasConnective span = false) : insides.countP hasConnective = 0 := by
  rw [List.countP_eq_zero]
  intro held hheld hsome
  have hspan : hasConnective held = false := by
    rw [hasConnective_eq_false] at hnone ⊢
    intro t ht
    exact hnone t (h.subset held hheld ht)
  rw [hspan] at hsome
  cases hsome

theorem hasComparison_of_mem (ht : token ∈ span) (hmark : token.kind.isComparison = true) :
    hasComparison span = true :=
  List.any_eq_true.2 ⟨token, ht, hmark⟩

theorem hasComparison_mono (h : hasComparison inner = true) (hsub : inner ⊆ span) :
    hasComparison span = true := by
  obtain ⟨mark, hmem, hmark⟩ := List.any_eq_true.1 h
  exact hasComparison_of_mem (hsub hmem) hmark

namespace IsComparison

theorem hasComparison (h : IsComparison options span tree) : hasComparison span = true := by
  induction h with
  | compare hmark =>
    exact hasComparison_of_mem (List.mem_append_right _ List.mem_cons_self) hmark
  | group hopen hclose hinner ih =>
    apply hasComparison_mono ih
    intro t ht
    simp [ht]

/-- The pairs around a comparison are not counted, and those around its two sides are few. -/
theorem isShallow (h : IsComparison options span tree) (hline : IsLine span)
    (henclosed : Enclosed token insides span) : IsShallow 0 insides := by
  have hnone := henclosed.countP_eq_zero (h.hasConnective_eq hline)
  refine ⟨Nat.le_of_eq hnone, ?_⟩
  clear hnone
  induction h generalizing insides with
  | @compare left right mark leftTree rightTree hmark hleft hright =>
    obtain ⟨-, -, segments, hsegments⟩ := exists_segments_of_readExpression hline.of_append_left hleft
    rcases henclosed.of_append (balanced_of_splitGroups hsegments) with h | hbehind
    · exact Nat.le_trans List.countP_le_length
        (length_le_of_readExpression hline.of_append_left hleft h)
    · rcases hbehind.of_cons (Kind.isParen_of_isComparison hmark) with rfl | h
      · exact Nat.zero_le _
      · exact Nat.le_trans List.countP_le_length
          (length_le_of_readExpression hline.of_append_right.of_cons hright h)
  | group hopen hclose hinner ih =>
    obtain ⟨segments, hsegments⟩ := hinner.exists_segments hline.of_group
    rcases henclosed.of_group (balanced_of_splitGroups hsegments) with rfl | h | ⟨rest, rfl, h⟩
    · exact Nat.zero_le _
    · exact ih hline.of_group h
    · rw [List.countP_cons_of_neg]
      · exact ih hline.of_group h
      · rw [hinner.hasComparison]
        exact Bool.false_ne_true

end IsComparison

mutual

theorem IsSide.hasComparison {level : Nat} {span : List Token} {tree : Node} :
    IsSide options level span tree → hasComparison span = true
  | .comparison h => h.hasComparison
  | .group hopen hclose hinner => by
    apply hasComparison_mono hinner.hasComparison
    intro t ht
    simp [ht]

theorem IsCondition.hasComparison {level : Nat} {span : List Token} {tree : Node} :
    IsCondition options level span tree → hasComparison span = true
  | .side h => h.hasComparison
  | .negation hmark hright => by
    apply hasComparison_mono hright.hasComparison
    exact List.subset_cons_self _ _
  | .joined hmark hbinary hleft hright => by
    apply hasComparison_mono hleft.hasComparison
    exact List.subset_append_left _ _

end

-- A pair of a condition groups a side of it or lies in one.  A group with a connective in it takes up
-- a level, and its condition is read with one level less, so the two counts go up together.
mutual

theorem IsSide.isShallow {level : Nat} {span : List Token} {tree : Node} :
    IsSide options level span tree → IsLine span → ∀ insides, Enclosed token insides span →
      IsShallow level insides
  | .comparison h, hline => by
    intro insides henclosed
    exact h.isShallow hline henclosed
  | @IsSide.group _ _ _ level inner _ hopen hclose hinner, hline => by
    intro insides henclosed
    obtain ⟨segments, hsegments⟩ := hinner.exists_segments hline.of_group
    have hbalanced := balanced_of_splitGroups hsegments
    -- A condition without a connective is of the level of a comparison.
    have hinside {rest : List (List Token)} (h : Enclosed token rest inner) :
        IsShallow (if hasConnective inner then level else 0) rest := by
      have hrest := hinner.isShallow hline.of_group _ h
      refine ⟨?_, hrest.operands⟩
      by_cases hsome : hasConnective inner = true
      · rw [if_pos hsome]
        exact hrest.connectives
      · rw [if_neg hsome]
        exact Nat.le_of_eq (h.countP_eq_zero (Bool.eq_false_iff.2 hsome))
    rcases henclosed.of_group hbalanced with rfl | h | ⟨rest, rfl, h⟩
    · exact isShallow_nil _
    · apply (hinside h).mono
      split <;> omega
    · apply ((hinside h).cons hinner.hasComparison).mono
      split <;> omega

/-- The pairs around a word of a condition are as few as its level says. -/
theorem IsCondition.isShallow {level : Nat} {span : List Token} {tree : Node} :
    IsCondition options level span tree → IsLine span → ∀ insides, Enclosed token insides span →
      IsShallow level insides
  | .side h, hline => h.isShallow hline
  | @IsCondition.negation _ mark level _ _ hmark hright, hline => by
    intro insides henclosed
    have hword : mark.kind.isParen = false := by
      rw [hmark]
      rfl
    rcases henclosed.of_cons hword with rfl | h
    · exact isShallow_nil _
    · exact (hright.isShallow hline.of_cons _ h).mono (Nat.le_succ _)
  | @IsCondition.joined _ mark leftLevel rightLevel _ _ _ _ hmark hbinary hleft hright, hline => by
    intro insides henclosed
    obtain ⟨segments, hsegments, -⟩ := hleft.exists_segments hline.of_append_left
    rcases henclosed.of_append (balanced_of_splitGroups hsegments) with h | hbehind
    · apply (hleft.isShallow hline.of_append_left _ h).mono
      omega
    · rcases hbehind.of_cons (Kind.isParen_of_isConnective hmark) with rfl | h
      · exact isShallow_nil _
      · apply (hright.isShallow hline.of_append_right.of_cons _ h).mono
        omega

end

/-! ### Main result -/

/-- The same tokens, as a relabelling.  Spans fail with breaches of the grammar only, so what becomes
    of other errors does not matter. -/
def sameTokens : Relabelling where
  token := id
  error
    | .grammar fault got line => .grammar fault got line
    | _ => .nowhere .expectedCondition
  kind_token _ := rfl
  token_phrase _ _ := rfl
  error_nowhere _ _ := rfl
  error_pinned _ _ _ := rfl
  error_orphan t span := by
    rw [List.map_id]
    rfl

/-- A condition that is not read breaks the grammar. -/
theorem exists_fault_of_readCondition {error : ParseError}
    (h : (readCondition options span).result = .error error) :
    ∃ fault got line, error = .grammar fault got line := by
  have hspan : span.map sameTokens.token = span := List.map_id span
  have hsame := sameTokens.relabels_readCondition options span
  unfold Relabelling.Relabels at hsame
  rw [hspan, h] at hsame
  have hfixed : error = sameTokens.error error := Except.error.inj hsame
  cases error with
  | lexical e => cases hfixed
  | unsupported feature line => cases hfixed
  | grammar fault got line => exact ⟨fault, got, line, rfl⟩

/-- A line of words is not read as a condition if one of them is enclosed by more than `maxNesting`
    pairs of parentheses that hold a connective, or by more than `maxNesting` pairs that hold no
    comparison. -/
theorem readCondition_nested (options : ReadOptions) (span : List Token) (token : Token)
    (insides : List (List Token)) (hline : ∀ t ∈ span, t.kind.isWord = true)
    (h : Enclosed token insides span)
    (hdeep : maxNesting < insides.countP hasConnective ∨
      maxNesting < insides.countP (!hasComparison ·)) :
    ∃ fault got line, (readCondition options span).result = .error (.grammar fault got line) := by
  cases hread : (readCondition options span).result with
  | ok tree =>
    -- A condition that is read has a level, and its pairs are no more than that.
    obtain ⟨level, hlevel, hcondition, -⟩ := exists_condition_of_read hread
    have hshallow := hcondition.isShallow hline insides h
    have hconnectives := hshallow.connectives
    have hoperands := hshallow.operands
    omega
  | error e =>
    obtain ⟨fault, got, line, rfl⟩ := exists_fault_of_readCondition hread
    exact ⟨fault, got, line, rfl⟩

/-! ### Pairs that are not counted -/

/-- A span with a given number of pairs of parentheses around the whole of it. -/
def wrapped (opening closing : Token) : Nat → List Token → List Token
  | 0, span => span
  | pairs + 1, span => opening :: wrapped opening closing pairs span ++ [closing]

theorem balanced_wrapped (hopen : opening.kind = .openParen) (hclose : closing.kind = .closeParen)
    (hspan : Balanced span) (pairs : Nat) : Balanced (wrapped opening closing pairs span) := by
  induction pairs with
  | zero => exact hspan
  | succ pairs ih => exact .group hopen ih hclose

theorem mem_wrapped {pairs : Nat} (h : token ∈ wrapped opening closing pairs span) :
    token = opening ∨ token = closing ∨ token ∈ span := by
  induction pairs with
  | zero => exact .inr (.inr h)
  | succ pairs ih =>
    rcases List.mem_append.1 h with h | h
    · rcases List.mem_cons.1 h with h | h
      · exact .inl h
      · exact ih h
    · exact .inr (.inl (List.mem_singleton.1 h))

theorem isLine_wrapped (hopen : opening.kind = .openParen) (hclose : closing.kind = .closeParen)
    (hspan : ∀ t ∈ span, t.kind.isWord = true) (pairs : Nat) :
    IsLine (wrapped opening closing pairs span) := by
  intro t ht
  rcases mem_wrapped ht with rfl | rfl | ht
  · rw [hopen]
    rfl
  · rw [hclose]
    rfl
  · exact hspan t ht

theorem hasConnective_wrapped (hopen : opening.kind = .openParen)
    (hclose : closing.kind = .closeParen) (hnone : hasConnective span = false) (pairs : Nat) :
    hasConnective (wrapped opening closing pairs span) = false := by
  rw [hasConnective_eq_false] at hnone ⊢
  intro t ht
  rcases mem_wrapped ht with rfl | rfl | ht
  · rw [hopen]
    rfl
  · rw [hclose]
    rfl
  · exact hnone t ht

theorem hasComparison_wrapped (hopen : opening.kind = .openParen)
    (hclose : closing.kind = .closeParen) (hnone : hasComparison span = false) (pairs : Nat) :
    hasComparison (wrapped opening closing pairs span) = false := by
  rw [hasComparison, List.any_eq_false] at hnone ⊢
  intro t ht
  rcases mem_wrapped ht with rfl | rfl | ht
  · rw [hopen]
    exact Bool.false_ne_true
  · rw [hclose]
    exact Bool.false_ne_true
  · exact hnone t ht

/-- As many pairs are around a word as are put around the span that it is in. -/
theorem exists_enclosed_wrapped (hopen : opening.kind = .openParen)
    (hclose : closing.kind = .closeParen) (hspan : Balanced span) (htoken : token ∈ span)
    (pairs : Nat) : ∃ insides, insides.length = pairs ∧
      Enclosed token insides (wrapped opening closing pairs span) ∧
      ∀ held ∈ insides, ∃ fewer, held = wrapped opening closing fewer span := by
  induction pairs with
  | zero => exact ⟨[], rfl, .here htoken, nofun⟩
  | succ pairs ih =>
    obtain ⟨insides, hlength, henclosed, hheld⟩ := ih
    have hinner := balanced_wrapped hopen hclose hspan pairs
    have hpair : Enclosed token _ ([] ++ (opening :: _ ++ closing :: [])) :=
      .inside hopen hclose hinner henclosed
    refine ⟨_ :: insides, congrArg Nat.succ hlength, hpair, ?_⟩
    rw [List.forall_mem_cons]
    exact ⟨⟨pairs, rfl⟩, hheld⟩

theorem peelParens_wrapped (hopen : opening.kind = .openParen) (hclose : closing.kind = .closeParen)
    (hspan : Balanced span) (pairs : Nat) :
    peelParens (wrapped opening closing pairs span) = peelParens span := by
  induction pairs with
  | zero => rfl
  | succ pairs ih =>
    rw [wrapped, peelParens_group hopen (balanced_wrapped hopen hclose hspan pairs) hclose]
    exact ih

/-- Any number of pairs of parentheses may stand around a comparison. -/
theorem readCondition_wrapped (options : ReadOptions) (hopen : opening.kind = .openParen)
    (hclose : closing.kind = .closeParen) (hspan : Balanced span) (hsome : span ≠ [])
    (hnone : hasConnective span = false) (pairs : Nat) :
    readCondition options (wrapped opening closing pairs span) = readCondition options span := by
  have hsomeWrapped : wrapped opening closing pairs span ≠ [] := by
    cases pairs with
    | zero => exact hsome
    | succ pairs => exact List.cons_ne_nil _ _
  have hnoneWrapped := hasConnective_wrapped hopen hclose hnone pairs
  unfold readCondition
  rw [readConditionWithin_none hsome hnone, readConditionWithin_none hsomeWrapped hnoneWrapped]
  exact readComparison_congr (peelParens_wrapped hopen hclose hspan pairs)

/-- The condition `((A)) == 1`, with 65 pairs of parentheses, is nested too deeply. -/
theorem readCondition_nested_variable :
    ∃ insides, Enclosed ⟨.var .scalar, some "A", 1⟩ insides
        (wrapped ⟨.openParen, none, 1⟩ ⟨.closeParen, none, 1⟩ 65 [⟨.var .scalar, some "A", 1⟩] ++
          [⟨.comparison .equal, none, 1⟩, ⟨.literal .int, some "1", 1⟩]) ∧
      insides.length = 65 ∧
      ∃ fault got line, (readCondition .default
        (wrapped ⟨.openParen, none, 1⟩ ⟨.closeParen, none, 1⟩ 65 [⟨.var .scalar, some "A", 1⟩] ++
          [⟨.comparison .equal, none, 1⟩, ⟨.literal .int, some "1", 1⟩])).result =
        .error (.grammar fault got line) := by
  have hopen : (⟨.openParen, none, 1⟩ : Token).kind = .openParen := rfl
  have hclose : (⟨.closeParen, none, 1⟩ : Token).kind = .closeParen := rfl
  have hvariable : Balanced [⟨.var .scalar, some "A", 1⟩] := rfl
  have hbehind : ∀ t ∈ [(⟨.comparison .equal, none, 1⟩ : Token), ⟨.literal .int, some "1", 1⟩],
      t.kind.isWord = true := by
    decide
  obtain ⟨insides, hlength, henclosed, hheld⟩ :=
    exists_enclosed_wrapped hopen hclose hvariable (List.mem_singleton_self _) 65
  have hcount : insides.countP (!hasComparison ·) = 65 := by
    rw [← hlength, List.countP_eq_length]
    intro held hin
    obtain ⟨fewer, rfl⟩ := hheld held hin
    rw [hasComparison_wrapped hopen hclose rfl]
    rfl
  refine ⟨insides, henclosed.append_right _, hlength,
    readCondition_nested .default _ _ insides ?_ (henclosed.append_right _) (.inr ?_)⟩
  · intro t ht
    rcases List.mem_append.1 ht with ht | ht
    · exact isLine_wrapped hopen hclose (by decide) 65 t ht
    · exact hbehind t ht
  · rw [hcount]
    decide

/-- The condition `((A == 1))`, with 65 pairs of parentheses, is read, so it is not true that
    `maxNesting` bounds the pairs around every word. -/
theorem readCondition_nested_comparison :
    ¬ ∀ (options : ReadOptions) (span : List Token) (token : Token) (insides : List (List Token)),
      (∀ t ∈ span, t.kind.isWord = true) → Enclosed token insides span →
      maxNesting < insides.length →
      ∃ fault got line, (readCondition options span).result = .error (.grammar fault got line) := by
  intro hall
  have hopen : (⟨.openParen, none, 1⟩ : Token).kind = .openParen := rfl
  have hclose : (⟨.closeParen, none, 1⟩ : Token).kind = .closeParen := rfl
  have hcomparison : Balanced
      [⟨.var .scalar, some "A", 1⟩, ⟨.comparison .equal, none, 1⟩, ⟨.literal .int, some "1", 1⟩] :=
    rfl
  obtain ⟨insides, hlength, henclosed, -⟩ :=
    exists_enclosed_wrapped hopen hclose hcomparison List.mem_cons_self 65
  have hdeep : maxNesting < insides.length := by
    rw [hlength]
    decide
  obtain ⟨fault, got, line, h⟩ := hall .default _ _ insides
    (isLine_wrapped hopen hclose (by decide) 65) henclosed hdeep
  rw [readCondition_wrapped .default hopen hclose hcomparison (List.cons_ne_nil _ _) rfl] at h
  cases h

end CalcLang
