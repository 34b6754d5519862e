import CalcLang.Proofs.Condition.Comparison

/-! # The language of conditions

    What the reader of conditions accepts and what it builds:

    * `IsCondition.readWithin`: a condition of the grammar is read as its tree if there is more room
      than its level.
    * `exists_condition_of_read`: what is read is a condition of the grammar.
    * `readCondition_language`: a line of words is read as a condition iff it is one of the grammar
      whose level is at most `maxNesting`, and the tree is the one of the grammar. -/

namespace CalcLang

variable {options : ReadOptions} {span left right inner : List Token} {mark : Token} {tree : Node}
  {level room : Nat} {segments before after : List Segment}

/-! ### The pieces of a condition -/

theorem IsSide.ne_nil (h : IsSide options level span tree) : span ≠ [] := by
  cases h with
  | comparison h => exact h.ne_nil
  | group hopen hclose hinner => simp

theorem IsCondition.ne_nil (h : IsCondition options level span tree) : span ≠ [] := by
  cases h with
  | side h => exact h.ne_nil
  | negation hmark hright => simp
  | joined hmark hbinary hleft hright => simp

mutual

theorem IsSide.exists_segments {level : Nat} {span : List Token} {tree : Node} :
    IsSide options level span tree → IsLine span →
      ∃ segments, splitGroups span = .ok segments ∧ segments.filterMap Segment.connective? = []
  | .comparison h, hline => by
    obtain ⟨segments, hsegments⟩ := h.exists_segments hline
    exact ⟨segments, hsegments, connectives_eq_nil hsegments (h.hasConnective_eq hline)⟩
  | .group hopen hclose hinner, hline => by
    obtain ⟨segments, hsegments⟩ := hinner.exists_segments hline.of_group
    have hbalanced := balanced_of_splitGroups hsegments
    exact ⟨_, splitGroups_group hopen hclose hinner.ne_nil hbalanced, rfl⟩

theorem IsCondition.exists_segments {level : Nat} {span : List Token} {tree : Node} :
    IsCondition options level span tree → IsLine span →
      ∃ segments, splitGroups span = .ok segments
  | .side h, hline => by
    obtain ⟨segments, hsegments, -⟩ := h.exists_segments hline
    exact ⟨segments, hsegments⟩
  | @IsCondition.negation _ mark _ _ _ hmark hright, hline => by
    obtain ⟨segments, hsegments, -⟩ := hright.exists_segments hline.of_cons
    have hword : mark.kind.isParen = false := by rw [hmark]; rfl
    exact ⟨_, splitGroups_append (splitGroups_word hword) hsegments⟩
  | .joined hmark _ hleft hright, hline => by
    obtain ⟨before, hbefore, -⟩ := hleft.exists_segments hline.of_append_left
    obtain ⟨after, hafter, -⟩ := hright.exists_segments hline.of_append_right.of_cons
    exact ⟨_, splitGroups_around hbefore (Kind.isParen_of_isConnective hmark) hafter⟩

end

mutual

/-- A side without a connective is a comparison. -/
theorem IsSide.isComparison {level : Nat} {span : List Token} {tree : Node} :
    IsSide options level span tree → hasConnective span = false → IsComparison options span tree
  | .comparison h, _ => h
  | .group hopen hclose hinner, hnone => by
    rw [hasConnective_eq_false] at hnone
    refine .group hopen hclose (hinner.isComparison (hasConnective_eq_false.2 ?_))
    intro t ht
    exact hnone t (List.mem_append_left _ (List.mem_cons_of_mem _ ht))

/-- A condition without a connective is a comparison. -/
theorem IsCondition.isComparison {level : Nat} {span : List Token} {tree : Node} :
    IsCondition options level span tree → hasConnective span = false →
      IsComparison options span tree
  | .side h, hnone => h.isComparison hnone
  | @IsCondition.negation _ mark _ _ _ hmark _, hnone => by
    have hword := hasConnective_eq_false.1 hnone mark (List.mem_cons_self ..)
    rw [hmark] at hword
    cases hword
  | @IsCondition.joined _ mark _ _ _ _ _ _ hmark _ _ _, hnone => by
    have hword := hasConnective_eq_false.1 hnone mark (by simp)
    rw [hmark] at hword
    cases hword

end

/-! ### One level of connectives -/

theorem readOperands_negation {operation : List Token → Logged ParseError Node}
    {operands : List Node} (hmark : mark.kind = .connective .not) :
    (readOperands operation mark left right).result = .ok operands ↔
      left = [] ∧ right ≠ [] ∧
        ∃ operand, (operation right).result = .ok operand ∧ operands = [operand] := by
  rw [readOperands, if_pos hmark]
  cases left with
  | cons token rest => simp
  | nil =>
    cases right with
    | nil => simp
    | cons token rest =>
      simp [Logged.result_bind_eq_ok, @eq_comm _ operands, -Logged.result_bind, -bind_pure_comp]

theorem readOperands_binary {operation : List Token → Logged ParseError Node}
    {operands : List Node} (hmark : mark.kind ≠ .connective .not) :
    (readOperands operation mark left right).result = .ok operands ↔
      left ≠ [] ∧ right ≠ [] ∧
        ∃ leftTree rightTree, (operation left).result = .ok leftTree ∧
          (operation right).result = .ok rightTree ∧ operands = [leftTree, rightTree] := by
  rw [readOperands, if_neg hmark]
  cases left with
  | nil => simp
  | cons token rest =>
    cases right with
    | nil => simp [Logged.result_bind_eq_ok, -Logged.result_bind]
    | cons token' rest' =>
      simp [Logged.result_bind_eq_ok, @eq_comm _ operands, -Logged.result_bind, -bind_pure_comp]

/-- A condition without a connective is read as a comparison. -/
theorem readConditionWithin_none (hne : span ≠ []) (hnone : hasConnective span = false) :
    readConditionWithin options (room + 1) span = readComparison options span := by
  cases span with
  | nil => exact absurd rfl hne
  | cons first rest =>
    have hfind : (first :: rest).find? (·.kind.isConnective) = none := by
      rw [List.find?_eq_none]
      intro t ht
      simp [hasConnective_eq_false.1 hnone t ht]
    rw [readConditionWithin, readConditionLevel, hfind]

theorem exists_find_of_hasConnective (h : hasConnective span = true) :
    ∃ nested, span.find? (·.kind.isConnective) = some nested := by
  rw [← Option.isSome_iff_exists, List.find?_isSome]
  simpa [hasConnective] using h

/-- A condition in parentheses is read with one level of room less. -/
theorem readConditionWithin_group {opening closing : Token} (hopen : opening.kind = .openParen)
    (hclose : closing.kind = .closeParen) (hne : inner ≠ []) (hinner : Balanced inner)
    (hconnective : hasConnective inner = true) :
    (readConditionWithin options (room + 1) (opening :: inner ++ [closing])).result =
      (readConditionWithin options room inner).result := by
  have hcut : (Logged.ofExcept (splitGroups (opening :: inner ++ [closing]))).result =
      .ok [.group opening inner closing] := splitGroups_group hopen hclose hne hinner
  obtain ⟨nested, hnested⟩ : ∃ nested,
      (opening :: inner ++ [closing]).find? (·.kind.isConnective) = some nested := by
    apply exists_find_of_hasConnective
    simp_all [hasConnective]
  rw [List.cons_append] at hcut hnested ⊢
  rw [readConditionWithin, readConditionLevel, hnested]
  exact Logged.result_bind_of_ok _ hcut

/-- Operands around the only connective at depth zero are read as a condition. -/
theorem readConditionWithin_operands {operands : List Node}
    (hbefore : splitGroups left = .ok before) (hleft : before.filterMap Segment.connective? = [])
    (hafter : splitGroups right = .ok after) (hright : after.filterMap Segment.connective? = [])
    (hmark : mark.kind.isConnective = true)
    (hoperands : (readOperands (readConditionWithin options room) mark left right).result =
      .ok operands) :
    (readConditionWithin options (room + 1) (left ++ mark :: right)).result =
      .ok (.phrase .logicExpr mark.line [.branch mark operands]) := by
  have hsegments := splitGroups_around hbefore (Kind.isParen_of_isConnective hmark) hafter
  have honly : (before ++ .token mark :: after).filterMap Segment.connective? = [mark] := by
    simp [List.filterMap_append, hleft, hright, Segment.connective?, hmark]
  have hsplit : splitAtConnective (before ++ .token mark :: after) = _ :=
    splitAtConnective_append hmark hleft
  rw [(splitGroups_eq_ok_iff.1 hbefore).2, (splitGroups_eq_ok_iff.1 hafter).2] at hsplit
  obtain ⟨nested, hnested⟩ : ∃ nested,
      (left ++ mark :: right).find? (·.kind.isConnective) = some nested := by
    apply exists_find_of_hasConnective
    simp [hasConnective, hmark]
  cases hspan : left ++ mark :: right with
  | nil => simp at hspan
  | cons first rest =>
    rw [hspan] at hsegments hnested
    have hcut : (Logged.ofExcept (splitGroups (first :: rest))).result =
        .ok (before ++ .token mark :: after) := hsegments
    rw [readConditionWithin, readConditionLevel, hnested]
    simp only
    rw [Logged.result_bind_of_ok _ hcut, honly]
    simp only [hsplit]
    rw [Logged.result_bind_of_ok _ hoperands]
    simp only [Logged.result_bind, Logged.result_noteIf, Except.bind, Logged.result_pure]

/-! ### From a derivation to a reading -/

theorem IsComparison.readWithin (h : IsComparison options span tree) (hline : IsLine span)
    (hroom : 0 < room) : (readConditionWithin options room span).result = .ok tree := by
  cases room with
  | zero => cases hroom
  | succ room =>
    rw [readConditionWithin_none h.ne_nil (h.hasConnective_eq hline)]
    exact h.read hline

mutual

theorem IsSide.readWithin {level : Nat} {span : List Token} {tree : Node} :
    IsSide options level span tree → IsLine span → ∀ room, level < room →
      (readConditionWithin options room span).result = .ok tree
  | .comparison h, hline => by
    intro room hroom
    exact h.readWithin hline hroom
  | @IsSide.group _ _ _ _ inner _ hopen hclose hinner, hline => by
    intro room hroom
    cases hconnective : hasConnective inner with
    | false =>
      -- The pair belongs to a comparison, which is peeled and needs no room for its parentheses.
      have hpair := IsComparison.group hopen hclose (hinner.isComparison hconnective)
      exact hpair.readWithin hline (Nat.zero_lt_of_lt hroom)
    | true =>
      rw [hconnective, if_pos rfl] at hroom
      obtain ⟨room, rfl⟩ := Nat.exists_eq_succ_of_ne_zero (Nat.ne_zero_of_lt hroom)
      obtain ⟨segments, hsegments⟩ := hinner.exists_segments hline.of_group
      have hbalanced := balanced_of_splitGroups hsegments
      have hread := hinner.readWithin hline.of_group room (Nat.lt_of_succ_lt_succ hroom)
      rw [readConditionWithin_group hopen hclose hinner.ne_nil hbalanced hconnective]
      exact hread

/-- A condition of the grammar is read as its tree if there is more room than its level. -/
theorem IsCondition.readWithin {level : Nat} {span : List Token} {tree : Node} :
    IsCondition options level span tree → IsLine span → ∀ room, level < room →
      (readConditionWithin options room span).result = .ok tree
  | .side h, hline => h.readWithin hline
  | @IsCondition.negation _ mark _ right tree hmark hright, hline => by
    intro room hroom
    obtain ⟨room, rfl⟩ := Nat.exists_eq_succ_of_ne_zero (Nat.ne_zero_of_lt hroom)
    obtain ⟨after, hafter, hnone⟩ := hright.exists_segments hline.of_cons
    have hread := hright.readWithin hline.of_cons room (Nat.lt_of_succ_lt_succ hroom)
    have hoperands : (readOperands (readConditionWithin options room) mark [] right).result =
        .ok [tree] := (readOperands_negation hmark).2 ⟨rfl, hright.ne_nil, tree, hread, rfl⟩
    have hwhole : (readConditionWithin options (room + 1) ([] ++ mark :: right)).result = _ :=
      readConditionWithin_operands rfl rfl hafter hnone (by rw [hmark]; rfl) hoperands
    exact hwhole
  | @IsCondition.joined _ mark leftLevel rightLevel left right leftTree rightTree hmark hbinary
      hleft hright, hline => by
    intro room hroom
    obtain ⟨room, rfl⟩ := Nat.exists_eq_succ_of_ne_zero (Nat.ne_zero_of_lt hroom)
    have hroom := Nat.lt_of_succ_lt_succ hroom
    obtain ⟨before, hbefore, hleftNone⟩ := hleft.exists_segments hline.of_append_left
    obtain ⟨after, hafter, hrightNone⟩ := hright.exists_segments hline.of_append_right.of_cons
    have hleftRead := hleft.readWithin hline.of_append_left room (by omega)
    have hrightRead := hright.readWithin hline.of_append_right.of_cons room (by omega)
    have hoperands := (readOperands_binary hbinary).2
      ⟨hleft.ne_nil, hright.ne_nil, leftTree, rightTree, hleftRead, hrightRead, rfl⟩
    exact readConditionWithin_operands hbefore hleftNone hafter hrightNone hmark hoperands

end

/-! ### From a reading to a derivation -/

/-- A connective at depth zero with the pieces on either side of it. -/
theorem exists_split_of_connectives {others : List Token}
    (h : segments.filterMap Segment.connective? = mark :: others) :
    ∃ before after, segments = before ++ .token mark :: after ∧ mark.kind.isConnective = true ∧
      before.filterMap Segment.connective? = [] ∧
      after.filterMap Segment.connective? = others := by
  obtain ⟨before, piece, after, rfl, hbefore, hpiece, hafter⟩ := List.filterMap_eq_cons_iff.1 h
  cases piece with
  | group opening inner closing => cases hpiece
  | token token =>
    simp only [Segment.connective?, Option.ite_none_right_eq_some, Option.some.injEq] at hpiece
    obtain ⟨hmark, rfl⟩ := hpiece
    exact ⟨before, after, rfl, hmark, List.filterMap_eq_nil_iff.2 hbefore, hafter⟩

/-- The parts of a span that is read as a condition with one level of room more than given. -/
inductive ConditionParts (options : ReadOptions) (room : Nat) : List Token → Node → Prop
  | comparison {span : List Token} {tree : Node}
      (hread : (readComparison options span).result = .ok tree) :
      ConditionParts options room span tree
  | group {opening closing : Token} {inner : List Token} {tree : Node}
      (hopen : opening.kind = .openParen) (hclose : closing.kind = .closeParen)
      (hread : (readConditionWithin options room inner).result = .ok tree) :
      ConditionParts options room (opening :: inner ++ [closing]) tree
  | operands {mark : Token} {before after : List Segment} {operands : List Node}
      (hformed : ∀ s ∈ before ++ .token mark :: after, s.WellFormed)
      (hmark : mark.kind.isConnective = true)
      (hbefore : before.filterMap Segment.connective? = [])
      (hafter : after.filterMap Segment.connective? = [])
      (hread : (readOperands (readConditionWithin options room) mark
        (before.flatMap Segment.tokens) (after.flatMap Segment.tokens)).result = .ok operands) :
      ConditionParts options room
        (before.flatMap Segment.tokens ++ mark :: after.flatMap Segment.tokens)
        (.phrase .logicExpr mark.line [.branch mark operands])

theorem conditionParts_of_read
    (h : (readConditionWithin options (room + 1) span).result = .ok tree) :
    ConditionParts options room span tree := by
  cases span with
  | nil => cases h
  | cons first rest =>
    rw [readConditionWithin, readConditionLevel] at h
    cases hfind : (first :: rest).find? (·.kind.isConnective) with
    | none =>
      simp only [hfind] at h
      exact .comparison h
    | some nested =>
      simp only [hfind] at h
      obtain ⟨segments, hsegments, h⟩ := Logged.result_bind_eq_ok.1 h
      obtain ⟨hformed, hspell⟩ := splitGroups_eq_ok_iff.1 hsegments
      rw [← hspell]
      rcases hmarks : segments.filterMap Segment.connective? with _ | ⟨mark, _ | ⟨_, _⟩⟩
      · -- All connectives are inside a group, which then has to be the whole of the span.
        simp only [hmarks] at h
        split at h
        · next opening inner closing =>
          obtain ⟨hopen, hclose, -⟩ := hformed _ (List.mem_singleton_self _)
          rw [List.flatMap_singleton]
          exact .group hopen hclose h
        · cases h
      · -- The only connective at depth zero has its operands on either side.
        obtain ⟨before, after, rfl, hmark, hbefore, hafter⟩ := exists_split_of_connectives hmarks
        simp only [hmarks, splitAtConnective_append hmark hbefore] at h
        obtain ⟨operands, hoperands, h⟩ := Logged.result_bind_eq_ok.1 h
        obtain ⟨_, -, h⟩ := Logged.result_bind_eq_ok.1 h
        cases h
        rw [List.flatMap_append, List.flatMap_cons]
        exact .operands hformed hmark hbefore hafter hoperands
      · simp only [hmarks] at h
        cases h

/-- A span without a connective at depth zero. -/
def IsPlain (span : List Token) : Prop :=
  ∀ segments, splitGroups span = .ok segments → segments.filterMap Segment.connective? = []

theorem isPlain_flatMap (hformed : ∀ s ∈ segments, s.WellFormed)
    (hnone : segments.filterMap Segment.connective? = []) :
    IsPlain (segments.flatMap Segment.tokens) := by
  intro others hothers
  rw [splitGroups_flatMap hformed] at hothers
  cases hothers
  exact hnone

theorem not_isPlain (hformed : ∀ s ∈ before ++ .token mark :: after, s.WellFormed)
    (hmark : mark.kind.isConnective = true) :
    ¬ IsPlain (before.flatMap Segment.tokens ++ mark :: after.flatMap Segment.tokens) := by
  intro hplain
  have hcut := splitGroups_flatMap hformed
  rw [List.flatMap_append, List.flatMap_cons] at hcut
  have hnone := List.filterMap_eq_nil_iff.1 (hplain _ hcut) (.token mark) (by simp)
  simp [Segment.connective?, hmark] at hnone

/-- What is read as a condition is one of the grammar whose level leaves room, and a side if there is
    no connective at depth zero. -/
theorem exists_condition_of_read (h : (readConditionWithin options room span).result = .ok tree) :
    ∃ level < room, IsCondition options level span tree ∧
      (IsPlain span → IsSide options level span tree) := by
  -- Parts of a condition are read with less room, so the induction is on the room.
  induction room generalizing span tree with
  | zero => cases span <;> cases h
  | succ room ih =>
    cases conditionParts_of_read h with
    | comparison hread =>
      have hside := IsSide.comparison (isComparison_of_readComparison hread)
      exact ⟨0, Nat.succ_pos room, .side hside, fun _ => hside⟩
    | @group opening closing inner _ hopen hclose hread =>
      obtain ⟨level, hlevel, hinner, -⟩ := ih hread
      have hside := IsSide.group hopen hclose hinner
      refine ⟨_, ?_, .side hside, fun _ => hside⟩
      split <;> omega
    | @operands mark before after operands hformed hmark hbefore hafter hread =>
      have hleftPlain : IsPlain (before.flatMap Segment.tokens) :=
        isPlain_flatMap (fun s hs => hformed s (by simp [hs])) hbefore
      have hrightPlain : IsPlain (after.flatMap Segment.tokens) :=
        isPlain_flatMap (fun s hs => hformed s (by simp [hs])) hafter
      have hjoined := not_isPlain hformed hmark
      by_cases hnot : mark.kind = .connective .not
      · obtain ⟨hleft, -, operand, hoperand, rfl⟩ := (readOperands_negation hnot).1 hread
        obtain ⟨level, hlevel, -, hside⟩ := ih hoperand
        rw [hleft] at hjoined ⊢
        exact ⟨level + 1, by omega, .negation hnot (hside hrightPlain),
          fun hplain => absurd hplain hjoined⟩
      · obtain ⟨-, -, leftTree, rightTree, hleft, hright, rfl⟩ :=
          (readOperands_binary hnot).1 hread
        obtain ⟨leftLevel, hleftLevel, -, hleftSide⟩ := ih hleft
        obtain ⟨rightLevel, hrightLevel, -, hrightSide⟩ := ih hright
        exact ⟨max leftLevel rightLevel + 1, by omega,
          .joined hmark hnot (hleftSide hleftPlain) (hrightSide hrightPlain),
          fun hplain => absurd hplain hjoined⟩

/-! ### Main result -/

/-- A line of words is read as a condition iff it is one of the grammar whose level is at most
    `maxNesting`, and then it is read as the tree of the grammar. -/
theorem readCondition_language (options : ReadOptions) (span : List Token) (tree : Node)
    (hline : ∀ t ∈ span, t.kind.isWord = true) :
    (readCondition options span).result = .ok tree ↔
      ∃ level ≤ maxNesting, IsCondition options level span tree := by
  constructor
  · intro h
    obtain ⟨level, hlevel, hcondition, -⟩ := exists_condition_of_read h
    exact ⟨level, Nat.le_of_lt_succ hlevel, hcondition⟩
  · intro ⟨level, hlevel, hcondition⟩
    exact hcondition.readWithin hline _ (Nat.lt_succ_of_le hlevel)

/-- The condition `NOT (A == 1)` has a derivation, since it is read. -/
theorem readCondition_language_negation :
    ∃ level ≤ maxNesting, IsCondition .default level
      [⟨.connective .not, none, 1⟩, ⟨.openParen, none, 1⟩, ⟨.var .scalar, some "A", 1⟩,
        ⟨.comparison .equal, none, 1⟩, ⟨.literal .int, some "1", 1⟩, ⟨.closeParen, none, 1⟩]
      (.phrase .logicExpr 1 [.branch ⟨.connective .not, none, 1⟩
        [.phrase .boolExpr 1 [.branch ⟨.comparison .equal, none, 1⟩
          [.leaf ⟨.var .scalar, some "A", 1⟩, .leaf ⟨.literal .int, some "1", 1⟩]]]]) :=
  (readCondition_language .default _ _ (by decide)).1 rfl

end CalcLang
