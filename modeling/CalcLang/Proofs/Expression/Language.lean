import CalcLang.Proofs.Expression.Reading

/-! # The language of expressions

    What the reader of expressions accepts and what it builds:

    * `readExpression_language`: it accepts exactly the spans that derive from the grammar with no
      more than `maxNesting` parentheses around a numeral, and names the nesting where there are
      more.
    * `readExpression_tree`: it builds the tree of the derivation, which loses no word but the
      parentheses. -/

namespace CalcLang

/-! ### The words of a tree

    A tree is read back in order, with an operator between its operands.  Neither the folding of a
    row nor the order of its tiers changes the words that are read back. -/

/-- The words of a row of operands with operators between them. -/
def Run.inOrder (run : Run) : List Token :=
  run.first.inOrder ++ run.links.flatMap fun link => link.1 :: link.2.inOrder

theorem Run.inOrder_fold (run : Run) : run.fold.inOrder = run.inOrder := by
  obtain ⟨first, links⟩ := run
  induction links generalizing first with
  | nil => simp [fold, inOrder]
  | cons link links ih =>
    have hjoin := ih (.branch link.1 [first, link.2])
    simp only [fold, List.foldl_cons] at hjoin ⊢
    rw [hjoin]
    simp [inOrder, Node.branch, Node.inOrder]

theorem Run.inOrder_ofRuns_cut (tier : List Operator) (first : Node) (links : List (Token × Node)) :
    (ofRuns (cut tier first links)).inOrder = inOrder ⟨first, links⟩ := by
  induction links generalizing first with
  | nil => rfl
  | cons link links ih =>
    obtain ⟨operator, right⟩ := link
    cases hcut : operator.isIn tier with
    | false =>
      rw [ofRuns_cut_join hcut, ih]
      simp [inOrder, Node.branch, Node.inOrder]
    | true =>
      have hright := ih right
      rw [ofRuns_cut_end hcut]
      simp only [inOrder, List.flatMap_cons, List.cons_append] at hright ⊢
      rw [hright]

theorem Precedence.inOrder_tree (precedence : Precedence) (first : Node)
    (links : List (Token × Node)) :
    (precedence.tree first links).inOrder = Run.inOrder ⟨first, links⟩ := by
  rw [Precedence.tree, Run.inOrder_fold, Run.inOrder_ofRuns_cut]

theorem inOrder_wrapExpression (line : Nat) (node : Node) :
    (wrapExpression line node).inOrder = node.inOrder := by
  unfold wrapExpression
  split
  · rfl
  · simp [Node.phrase, Node.branch, Node.inOrder, Token.plain]

mutual

theorem Operand.inOrder_tree (precedence : Precedence) : (operand : Operand) →
    (operand.tree precedence).inOrder = operand.tokens.filter (!·.kind.isParen)
  | .numeral token hnumeral => by
    have hword := Kind.isParen_of_isNumeral hnumeral
    simp [Operand.tree, Operand.tokens, hword, Node.leaf, Node.branch, Node.inOrder]
  | .group opening inner closing hopen hclose => by
    have hinner := inner.inOrder_tree precedence
    simp [Operand.tree, Operand.tokens, hinner, hopen, hclose, Kind.isParen]

theorem Links.inOrder_trees (precedence : Precedence) : (links : Links) →
    ((links.trees precedence).flatMap fun link => link.1 :: link.2.inOrder) =
      links.tokens.filter (!·.kind.isParen)
  | .nil => rfl
  | .cons operator right rest hoperator => by
    have hright := right.inOrder_tree precedence
    have hrest := rest.inOrder_trees precedence
    have hword := Kind.isParen_of_isOperator hoperator
    simp [Links.trees, Links.tokens, hright, hrest, hword]

/-- The tree of an expression has its words in their order, but for the parentheses. -/
theorem Expression.inOrder_tree (precedence : Precedence) : (expression : Expression) →
    (expression.tree precedence).inOrder = expression.tokens.filter (!·.kind.isParen)
  | .chain (.numeral token hnumeral) .nil => by
    have hword := Kind.isParen_of_isNumeral hnumeral
    simp [Expression.tree, Expression.tokens, Operand.tokens, Links.tokens, hword, Node.leaf,
      Node.branch, Node.inOrder]
  | .chain (.numeral token hnumeral) (.cons operator right rest hoperator) => by
    have hfirst := Operand.inOrder_tree precedence (.numeral token hnumeral)
    have hlinks := Links.inOrder_trees precedence (.cons operator right rest hoperator)
    rw [Expression.tree, inOrder_wrapExpression, Precedence.inOrder_tree, Run.inOrder,
      Expression.tokens, List.filter_append, hfirst, hlinks]
    exact nofun
  | .chain (.group opening inner closing hopen hclose) links => by
    have hfirst := Operand.inOrder_tree precedence (.group opening inner closing hopen hclose)
    have hlinks := links.inOrder_trees precedence
    rw [Expression.tree, inOrder_wrapExpression, Precedence.inOrder_tree, Run.inOrder,
      Expression.tokens, List.filter_append, hfirst, hlinks]
    exact nofun
  | .call function argument hfunction => by
    have hargument := argument.inOrder_tree precedence
    have hword := Kind.isParen_of_isFunction hfunction
    have hkind : function.kind ≠ .phrase .expr := by
      intro h
      rw [h] at hfunction
      cases hfunction
    rw [Expression.tree, inOrder_wrapExpression]
    simp [Expression.tokens, hword, hargument, hkind, Node.branch, Node.inOrder]

end

/-! ### Main results -/

/-- The reader accepts a line of words iff it derives from the grammar of expressions with at most
    `maxNesting` parentheses around a numeral.  A line that derives with more of them is nested too
    deeply. -/
theorem readExpression_language (options : ReadOptions) (span : List Token)
    (hwords : ∀ t ∈ span, t.kind.isWord = true) :
    ((∃ tree, (readExpression options span).result = .ok tree) ↔
        ∃ expression : Expression, expression.tokens = span ∧ expression.depth ≤ maxNesting) ∧
      (∀ expression : Expression, expression.tokens = span → maxNesting < expression.depth →
        ∃ token ∈ span, ∃ error, (readExpression options span).result = .error error ∧
          error = .pinned token .nestedTooDeeply ∧
          error.summary = "expression nested too deeply") := by
  refine ⟨⟨?_, ?_⟩, ?_⟩
  · intro ⟨tree, hread⟩
    obtain ⟨expression, htokens, hdepth⟩ := exists_expression_of_read hwords hread
    exact ⟨expression, htokens, Nat.le_of_lt_succ hdepth⟩
  · intro ⟨expression, htokens, hdepth⟩
    rw [← htokens]
    exact ⟨_, (expression.read options (maxNesting + 1)).fits (Nat.lt_succ_of_le hdepth)⟩
  · intro expression htokens hdepth
    rw [← htokens]
    obtain ⟨token, htoken, hread⟩ := (expression.read options (maxNesting + 1)).nested hdepth
    exact ⟨token, htoken, _, hread, rfl, rfl⟩

/-- The line `1 + (2)` derives from the grammar, since it is read. -/
theorem readExpression_language_sum :
    ∃ expression : Expression, expression.tokens =
        [⟨.literal .int, some "1", 1⟩, ⟨.operator .plus, none, 1⟩, ⟨.openParen, none, 1⟩,
          ⟨.literal .int, some "2", 1⟩, ⟨.closeParen, none, 1⟩] ∧
      expression.depth ≤ maxNesting :=
  (readExpression_language .default _ (by decide)).1.1 ⟨_, rfl⟩

/-- Tokens of a program that are read have a derivation, and what is built from them is its tree,
    whichever derivation it is.  Read in order, the tree has their words but for the parentheses. -/
theorem readExpression_tree (options : ReadOptions) (span : List Token) (tree : Node)
    (hscanned : ∀ t ∈ span, t.kind.isScanned = true)
    (hread : (readExpression options span).result = .ok tree) :
    (∃ expression : Expression, expression.tokens = span) ∧
      (∀ expression : Expression, expression.tokens = span →
        tree = expression.tree options.precedence) ∧
      tree.inOrder = span.filter (!·.kind.isParen) := by
  have hwords : ∀ t ∈ span, t.kind.isWord = true := by
    intro t ht
    rw [Kind.isWord, hscanned t ht, endsLine_of_read hread t ht]
    rfl
  have htree : ∀ expression : Expression, expression.tokens = span →
      tree = expression.tree options.precedence := by
    intro expression htokens
    have hall := expression.read options (maxNesting + 1)
    rw [htokens] at hall
    by_cases hdepth : expression.depth < maxNesting + 1
    · have hfits := hall.fits hdepth
      exact Except.ok.inj (hread.symm.trans hfits)
    · -- A derivation that is nested too deeply would not have been read.
      obtain ⟨token, -, herror⟩ := hall.nested (Nat.le_of_not_lt hdepth)
      cases hread.symm.trans herror
  obtain ⟨expression, htokens, -⟩ := exists_expression_of_read hwords hread
  refine ⟨⟨expression, htokens⟩, htree, ?_⟩
  rw [htree expression htokens, expression.inOrder_tree, htokens]

/-- Under legacy precedence, `1 - 2 * 3` is the product of a difference. -/
theorem readExpression_tree_legacy :
    ∃ expression : Expression, expression.tokens =
        [⟨.literal .int, some "1", 1⟩, ⟨.operator .minus, none, 1⟩, ⟨.literal .int, some "2", 1⟩,
          ⟨.operator .times, none, 1⟩, ⟨.literal .int, some "3", 1⟩] ∧
      expression.tree .legacy = .phrase .expr 1
        [.branch ⟨.operator .times, none, 1⟩
          [.branch ⟨.operator .minus, none, 1⟩
            [.leaf ⟨.literal .int, some "1", 1⟩, .leaf ⟨.literal .int, some "2", 1⟩],
          .leaf ⟨.literal .int, some "3", 1⟩]] := by
  obtain ⟨⟨expression, htokens⟩, htree, -⟩ := readExpression_tree ⟨.legacy, .skip, false, false⟩
    [⟨.literal .int, some "1", 1⟩, ⟨.operator .minus, none, 1⟩, ⟨.literal .int, some "2", 1⟩,
      ⟨.operator .times, none, 1⟩, ⟨.literal .int, some "3", 1⟩] _ (by decide) rfl
  exact ⟨expression, htokens, (htree expression htokens).symm⟩

end CalcLang
