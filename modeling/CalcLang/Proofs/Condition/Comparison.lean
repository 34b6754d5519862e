import CalcLang.Proofs.Condition.Grammar

/-! # Reading a comparison

    The reader of comparisons against their grammar, in both directions:

    * `IsComparison.read`: a comparison of the grammar is read as its tree.
    * `isComparison_of_readComparison`: what is read is a comparison of the grammar.

    The reader peels the parentheses around a comparison and searches the first word that compares.
    In a comparison of the grammar that is the only one, since expressions hold none. -/

namespace CalcLang

variable {options : ReadOptions} {span left right inner : List Token} {mark : Token} {tree : Node}
  {segments before after : List Segment}

/-! ### Words -/

theorem Kind.isComparison_of_isArithmetic {kind : Kind} (h : kind.isArithmetic = true) :
    kind.isComparison = false := by
  cases kind <;> simp_all [isArithmetic, isNumeral, isOperator, isFunction, isParen, isComparison]

theorem Kind.isConnective_of_isArithmetic {kind : Kind} (h : kind.isArithmetic = true) :
    kind.isConnective = false := by
  cases kind <;> simp_all [isArithmetic, isNumeral, isOperator, isFunction, isParen, isConnective]

theorem Kind.isParen_of_isComparison {kind : Kind} (h : kind.isComparison = true) :
    kind.isParen = false := by
  cases kind <;> simp_all [isComparison, isParen]

theorem Kind.isConnective_of_isComparison {kind : Kind} (h : kind.isComparison = true) :
    kind.isConnective = false := by
  cases kind <;> simp_all [isComparison, isConnective]

theorem Kind.isWord_of_isConnective {kind : Kind} (h : kind.isConnective = true) :
    kind.isWord = true := by
  cases kind <;> simp_all [isConnective, isWord, isScanned, endsLine]

theorem Kind.isParen_of_isConnective {kind : Kind} (h : kind.isConnective = true) :
    kind.isParen = false := by
  cases kind <;> simp_all [isConnective, isParen]

/-- A span of the words of a line. -/
def IsLine (span : List Token) : Prop := ∀ t ∈ span, t.kind.isWord = true

namespace IsLine

theorem of_append_left (h : IsLine (left ++ right)) : IsLine left := by
  intro t ht
  exact h t (List.mem_append_left _ ht)

theorem of_append_right (h : IsLine (left ++ right)) : IsLine right := by
  intro t ht
  exact h t (List.mem_append_right _ ht)

theorem of_cons (h : IsLine (mark :: right)) : IsLine right := by
  intro t ht
  exact h t (List.mem_cons_of_mem _ ht)

theorem of_group {opening closing : Token} (h : IsLine (opening :: inner ++ [closing])) :
    IsLine inner :=
  h.of_append_left.of_cons

theorem append (hleft : IsLine left) (hright : IsLine right) : IsLine (left ++ right) :=
  List.forall_mem_append.2 ⟨hleft, hright⟩

theorem cons (hmark : mark.kind.isWord = true) (hright : IsLine right) : IsLine (mark :: right) :=
  List.forall_mem_cons.2 ⟨hmark, hright⟩

theorem group {opening closing : Token} (hopen : opening.kind = .openParen)
    (hclose : closing.kind = .closeParen) (hinner : IsLine inner) :
    IsLine (opening :: inner ++ [closing]) := by
  have hopening : opening.kind.isWord = true := by rw [hopen]; rfl
  have hclosing : closing.kind.isWord = true := by rw [hclose]; rfl
  exact (cons hopening hinner).append (cons hclosing nofun)

end IsLine

theorem hasConnective_eq_false :
    hasConnective span = false ↔ ∀ t ∈ span, t.kind.isConnective = false := by
  simp [hasConnective]

/-- There is no connective among the pieces of a span that has none. -/
theorem connectives_eq_nil (h : splitGroups span = .ok segments)
    (hnone : hasConnective span = false) : segments.filterMap Segment.connective? = [] := by
  obtain ⟨-, rfl⟩ := splitGroups_eq_ok_iff.1 h
  rw [hasConnective_eq_false] at hnone
  rw [List.filterMap_eq_nil_iff]
  intro s hs
  cases s with
  | token token =>
    have htoken := hnone token (List.mem_flatMap.2 ⟨_, hs, List.mem_singleton_self _⟩)
    simp [Segment.connective?, htoken]
  | group opening inner closing => rfl

/-! ### Splitting a span at a word -/

theorem splitAtFirst_append {property : Token → Bool} (hmark : property mark = true)
    (hleft : ∀ t ∈ left, property t = false) :
    splitAtFirst property (left ++ mark :: right) = (left, right) := by
  have htake : ∀ t ∈ left, (!property t) = true := by
    intro t ht
    rw [hleft t ht]
    rfl
  rw [splitAtFirst, List.takeWhile_append_of_pos htake, List.dropWhile_append_of_pos htake]
  simp [hmark]

theorem splitAtConnective_append (hmark : mark.kind.isConnective = true)
    (hbefore : before.filterMap Segment.connective? = []) :
    splitAtConnective (before ++ .token mark :: after) =
      (before.flatMap Segment.tokens, after.flatMap Segment.tokens) := by
  have htake : ∀ s ∈ before, s.connective?.isNone = true := by
    intro s hs
    rw [List.filterMap_eq_nil_iff.1 hbefore s hs]
    rfl
  rw [splitAtConnective, List.takeWhile_append_of_pos htake, List.dropWhile_append_of_pos htake]
  simp [Segment.connective?, hmark]

theorem splitGroups_around (hleft : splitGroups left = .ok before)
    (hmark : mark.kind.isParen = false) (hright : splitGroups right = .ok after) :
    splitGroups (left ++ mark :: right) = .ok (before ++ .token mark :: after) :=
  splitGroups_append hleft (splitGroups_append (splitGroups_word hmark) hright)

/-! ### Comparisons -/

/-- The parts of a comparison that is read: its two expressions, each cut into pieces that are words
    of expressions. -/
theorem exists_segments_of_readExpression (hline : IsLine span)
    (h : (readExpression options span).result = .ok tree) :
    span ≠ [] ∧ (∀ t ∈ span, t.kind.isArithmetic = true) ∧
      ∃ segments, splitGroups span = .ok segments := by
  obtain ⟨expression, rfl, -⟩ := exists_expression_of_read hline h
  exact ⟨expression.tokens_ne_nil, expression.isArithmetic, _, expression.splitGroups_tokens⟩

namespace IsComparison

theorem ne_nil (h : IsComparison options span tree) : span ≠ [] := by
  cases h <;> simp

theorem exists_segments (h : IsComparison options span tree) (hline : IsLine span) :
    ∃ segments, splitGroups span = .ok segments := by
  induction h with
  | compare hmark hleft hright =>
    obtain ⟨-, -, before, hbefore⟩ :=
      exists_segments_of_readExpression hline.of_append_left hleft
    obtain ⟨-, -, after, hafter⟩ :=
      exists_segments_of_readExpression hline.of_append_right.of_cons hright
    exact ⟨_, splitGroups_around hbefore (Kind.isParen_of_isComparison hmark) hafter⟩
  | group hopen hclose hinner ih =>
    obtain ⟨segments, hsegments⟩ := ih hline.of_group
    exact ⟨_, splitGroups_group hopen hclose hinner.ne_nil (balanced_of_splitGroups hsegments)⟩

theorem hasConnective_eq (h : IsComparison options span tree) (hline : IsLine span) :
    hasConnective span = false := by
  rw [hasConnective_eq_false]
  induction h with
  | compare hmark hleft hright =>
    obtain ⟨-, hfirst, -⟩ := exists_segments_of_readExpression hline.of_append_left hleft
    obtain ⟨-, hsecond, -⟩ :=
      exists_segments_of_readExpression hline.of_append_right.of_cons hright
    intro t ht
    rcases List.mem_append.1 ht with ht | ht
    · exact Kind.isConnective_of_isArithmetic (hfirst t ht)
    · rcases List.mem_cons.1 ht with rfl | ht
      · exact Kind.isConnective_of_isComparison hmark
      · exact Kind.isConnective_of_isArithmetic (hsecond t ht)
  | group hopen hclose _ ih =>
    intro t ht
    rcases List.mem_append.1 ht with ht | ht
    · rcases List.mem_cons.1 ht with rfl | ht
      · rw [hopen]; rfl
      · exact ih hline.of_group t ht
    · rw [List.mem_singleton.1 ht, hclose]; rfl

end IsComparison

/-- Two expressions that are read around a comparison are read as a comparison. -/
theorem readComparison_of_split {leftTree rightTree : Node} (hpeel : peelParens span = span)
    (hfilter : span.filter (·.kind.isComparison) = [mark])
    (hsegments : splitGroups span = .ok segments)
    (hany : segments.any Segment.isComparison = true)
    (hsplit : splitAtFirst (·.kind.isComparison) span = (left, right))
    (hleftFull : left ≠ []) (hrightFull : right ≠ [])
    (hleft : (readExpression options left).result = .ok leftTree)
    (hright : (readExpression options right).result = .ok rightTree) :
    (readComparison options span).result =
      .ok (.phrase .boolExpr mark.line [.branch mark [leftTree, rightTree]]) := by
  cases span with
  | nil => cases hfilter
  | cons first rest =>
    have hcut : (Logged.ofExcept (splitGroups (first :: rest))).result = .ok segments := by
      rw [Logged.result_ofExcept, hsegments]
    rw [readComparison, hpeel]
    simp only [hfilter]
    rw [Logged.result_bind_of_ok _ hcut, if_neg (by rw [hany]; decide), hsplit]
    simp only
    rw [if_neg (by simp [hleftFull, hrightFull])]
    simp only [Logged.result_bind, Logged.result_noteIf, Except.bind, hleft, hright,
      Logged.result_pure]

theorem readComparison_congr {other : List Token} (h : peelParens span = peelParens other) :
    readComparison options span = readComparison options other := by
  rw [readComparison, h, ← readComparison]

/-- A comparison of the grammar is read as its tree. -/
theorem IsComparison.read (h : IsComparison options span tree) (hline : IsLine span) :
    (readComparison options span).result = .ok tree := by
  induction h with
  | @compare left right mark leftTree rightTree hmark hleft hright =>
    obtain ⟨hleftFull, hfirst, before, hbefore⟩ :=
      exists_segments_of_readExpression hline.of_append_left hleft
    obtain ⟨hrightFull, hsecond, after, hafter⟩ :=
      exists_segments_of_readExpression hline.of_append_right.of_cons hright
    have hfirst := fun t ht => Kind.isComparison_of_isArithmetic (hfirst t ht)
    have hsecond := fun t ht => Kind.isComparison_of_isArithmetic (hsecond t ht)
    -- What opens at the front is closed before the comparison, so nothing is peeled.
    have hpeel : peelParens (left ++ mark :: right) = left ++ mark :: right :=
      peelParens_of_lead (balanced_of_splitGroups hbefore) hleftFull (by simp)
    have hfilter : (left ++ mark :: right).filter (·.kind.isComparison) = [mark] := by
      rw [List.filter_eq_cons_iff]
      refine ⟨left, right, rfl, by simpa using hfirst, hmark, ?_⟩
      rw [List.filter_eq_nil_iff]
      simpa using hsecond
    exact readComparison_of_split hpeel hfilter
      (splitGroups_around hbefore (Kind.isParen_of_isComparison hmark) hafter)
      (by simp [Segment.isComparison, hmark]) (splitAtFirst_append hmark hfirst) hleftFull
      hrightFull hleft hright
  | group hopen hclose hinner ih =>
    obtain ⟨segments, hsegments⟩ := hinner.exists_segments hline.of_group
    have hpeel := peelParens_group hopen (balanced_of_splitGroups hsegments) hclose
    rw [readComparison_congr hpeel]
    exact ih hline.of_group

/-- What is read as a comparison is one of the grammar. -/
theorem isComparison_of_readComparison (h : (readComparison options span).result = .ok tree) :
    IsComparison options span tree := by
  apply peelParens_induction (P := fun s => IsComparison options s tree)
  · rw [readComparison] at h
    cases hpeel : peelParens span with
    | nil =>
      rw [hpeel] at h
      cases h
    | cons first rest =>
      simp only [hpeel] at h
      -- Only a span with exactly one word that compares is read.
      rcases hfilter : (first :: rest).filter (·.kind.isComparison) with _ | ⟨mark, _ | ⟨_, _⟩⟩
      · simp only [hfilter] at h
        cases h
      · simp only [hfilter] at h
        obtain ⟨segments, -, h⟩ := Logged.result_bind_eq_ok.1 h
        obtain ⟨left, right, hspan, hleft, hmark, -⟩ := List.filter_eq_cons_iff.1 hfilter
        have hsplit : splitAtFirst (·.kind.isComparison) (left ++ mark :: right) = (left, right) :=
          splitAtFirst_append hmark (by simpa using hleft)
        rw [hspan, hsplit] at h
        split at h
        · cases h
        · simp only at h
          split at h
          · cases h
          · obtain ⟨_, -, h⟩ := Logged.result_bind_eq_ok.1 h
            obtain ⟨leftTree, hleftTree, h⟩ := Logged.result_bind_eq_ok.1 h
            obtain ⟨rightTree, hrightTree, h⟩ := Logged.result_bind_eq_ok.1 h
            cases h
            rw [hspan]
            exact .compare hmark hleftTree hrightTree
      · simp only [hfilter] at h
        cases h
  · intro opening inner closing hopen hclose hinner
    exact .group hopen hclose hinner

end CalcLang
