import CalcLang.Proofs.Expression.Grammar

/-! # Folding a row

    What the two rounds of folding and the round of applying functions do to a row of siblings:

    * `foldTier_row`: folding a tier replaces each run between the operators of the other tier by
      its tree.
    * `foldTiers_row`: both tiers together leave the tree of the row.
    * `foldable_of_foldTier`, `foldable_of_applyFunctions`: what becomes a single operand in the end
      has been a chain of operands, or a function and its argument, from the start. -/

namespace CalcLang

/-- The siblings that a row is read from. -/
def Run.siblings (run : Run) : List Node :=
  run.first :: run.links.flatMap fun link => [.leaf link.1, link.2]

variable {debug : Bool} {tier other : List Operator} {siblings before after : List Node}
  {left right first node : Node} {operator : Token}

/-! ### Operands -/

theorem isBareOperator_eq (tier : List Operator) (node : Node) :
    isBareOperator tier node = (node.isLeaf && node.token.isIn tier) := rfl

theorem Token.isIn_eq_false (h : operator.kind.isOperator = false) :
    operator.isIn tier = false := by
  cases hkind : operator.kind <;> simp_all [isIn, Kind.isOperator]

/-- An operand is never mistaken for an operator. -/
theorem isBareOperator_of_isOperand (h : isOperand node = true) :
    isBareOperator tier node = false := by
  -- Both words are about the leaf: a leaf that is an operand has no operator for its kind.
  rw [isBareOperator_eq]
  cases hleaf : node.isLeaf
  · rfl
  · rw [Bool.true_and]
    apply Token.isIn_eq_false
    show node.kind.isOperator = false
    cases hkind : node.kind <;> simp_all [isOperand, Kind.isOperator, Kind.isNumeral]

theorem isOperand_of_isArgument (h : isArgument node = true) : isOperand node = true := by
  simp only [isArgument, isOperand, Bool.or_eq_true, Bool.and_eq_true] at h ⊢
  rcases h with h | ⟨_, h⟩
  · exact .inl (.inr h)
  · exact .inr h

/-- A folded node is an operand. -/
theorem isOperand_branch (operator : Token) (first : Node) (rest : List Node) :
    isOperand (.branch operator (first :: rest)) = true := rfl

/-- The two tiers share the operators between them. -/
theorem Precedence.isIn_firstTier (precedence : Precedence) (h : operator.kind.isOperator = true) :
    operator.isIn precedence.firstTier = !operator.isIn precedence.secondTier := by
  cases hkind : operator.kind with
  | operator o => cases o <;> cases precedence <;> simp only [Token.isIn, hkind] <;> rfl
  | _ => simp [hkind, Kind.isOperator] at h

/-! ### Rows -/

/-- A row of operands with operators between them. -/
structure Run.WellFormed (run : Run) : Prop where
  first : isOperand run.first = true
  operators : ∀ link ∈ run.links, link.1.kind.isOperator = true
  operands : ∀ link ∈ run.links, isOperand link.2 = true

theorem Run.isOperand_fold {run : Run} (h : isOperand run.first = true) :
    isOperand run.fold = true := by
  obtain ⟨first, links⟩ := run
  induction links generalizing first with
  | nil => exact h
  | cons link links ih => exact ih _ (isOperand_branch link.1 first [link.2])

/-- An operator that is no cut joins its left operand with its right one. -/
theorem Run.ofRuns_cut_join {rest : List (Token × Node)} (h : operator.isIn tier = false) :
    ofRuns (cut tier first ((operator, right) :: rest)) =
      ofRuns (cut tier (.branch operator [first, right]) rest) := by
  cases rest with
  | nil => simp [cut, h, ofRuns, fold]
  | cons link rest =>
    obtain ⟨operator', right'⟩ := link
    cases h' : operator'.isIn tier <;> simp [cut, h, h', ofRuns, fold]

/-- An operator that is a cut ends the run to its left. -/
theorem Run.ofRuns_cut_end {rest : List (Token × Node)} (h : operator.isIn tier = true) :
    ofRuns (cut tier first ((operator, right) :: rest)) =
      ⟨first, (operator, (ofRuns (cut tier right rest)).first) ::
        (ofRuns (cut tier right rest)).links⟩ := by
  simp [cut, h, ofRuns, fold]

/-- Nothing is cut where there is no operator of the tier. -/
theorem Run.ofRuns_cut_none {links : List (Token × Node)}
    (h : ∀ link ∈ links, link.1.isIn tier = false) :
    ofRuns (cut tier first links) = ⟨fold ⟨first, links⟩, []⟩ := by
  induction links generalizing first with
  | nil => rfl
  | cons link rest ih =>
    rw [ofRuns_cut_join (h link (List.mem_cons_self ..)),
      ih fun link hlink => h link (List.mem_cons_of_mem _ hlink)]
    rfl

/-- The row of the runs is a row again, with the operators that were cut at. -/
theorem Run.wellFormed_ofRuns (tier : List Operator) {links : List (Token × Node)}
    (h : WellFormed ⟨first, links⟩) :
    WellFormed (ofRuns (cut tier first links)) ∧
      ∀ link ∈ (ofRuns (cut tier first links)).links, link.1.isIn tier = true := by
  induction links generalizing first with
  | nil => exact ⟨⟨h.first, by simp [cut, ofRuns], by simp [cut, ofRuns]⟩, by simp [cut, ofRuns]⟩
  | cons link rest ih =>
    obtain ⟨operator, right⟩ := link
    have hoperator := h.operators _ (List.mem_cons_self ..)
    have hright := h.operands _ (List.mem_cons_self ..)
    have hoperators := fun link hlink => h.operators link (List.mem_cons_of_mem _ hlink)
    have hoperands := fun link hlink => h.operands link (List.mem_cons_of_mem _ hlink)
    cases hcut : operator.isIn tier with
    | false =>
      rw [ofRuns_cut_join hcut]
      exact ih ⟨isOperand_branch operator first [right], hoperators, hoperands⟩
    | true =>
      obtain ⟨hrow, hcuts⟩ := ih ⟨hright, hoperators, hoperands⟩
      rw [ofRuns_cut_end hcut]
      refine ⟨⟨h.first, ?_, ?_⟩, ?_⟩
      · intro link hlink
        rcases List.mem_cons.1 hlink with rfl | hlink
        · exact hoperator
        · exact hrow.operators link hlink
      · intro link hlink
        rcases List.mem_cons.1 hlink with rfl | hlink
        · exact hrow.first
        · exact hrow.operands link hlink
      · intro link hlink
        rcases List.mem_cons.1 hlink with rfl | hlink
        · exact hcut
        · exact hcuts link hlink

/-! ### Folding forward -/

theorem firstOperator?_eq_none (h : ∀ n ∈ siblings, isBareOperator tier n = false) :
    firstOperator? tier siblings = none := by
  induction siblings with
  | nil => rfl
  | cons node rest ih =>
    rw [firstOperator?, if_neg (by simp [h node (List.mem_cons_self ..)]),
      ih fun n hn => h n (List.mem_cons_of_mem _ hn)]
    rfl

theorem firstOperator?_append (hbefore : ∀ n ∈ before, isBareOperator tier n = false)
    (hnode : isBareOperator tier node = true) :
    firstOperator? tier (before ++ node :: after) = some (before, node, after) := by
  induction before with
  | nil => rw [List.nil_append, firstOperator?, if_pos hnode]
  | cons other before ih =>
    rw [List.cons_append, firstOperator?, if_neg (by simp [hbefore other (List.mem_cons_self ..)]),
      ih fun n hn => hbefore n (List.mem_cons_of_mem _ hn)]
    rfl

/-- A row without a bare operator of the tier stays as it is. -/
theorem foldTier_done (h : ∀ n ∈ siblings, isBareOperator tier n = false) :
    (foldTier debug tier siblings).result = .ok siblings := by
  rw [foldTier_eq, firstOperator?_eq_none h]
  rfl

/-- An operator is folded if and only if it stands between two operands. -/
theorem foldAt_eq_ok_iff {bare : Node} {folded : List Node} :
    (foldAt debug before bare after).result = .ok folded ↔
      ∃ passed left right rest, before = passed ++ [left] ∧ after = right :: rest ∧
        isOperand left = true ∧ isOperand right = true ∧
        folded = passed ++ .branch bare.token [left, right] :: rest := by
  constructor
  · intro h
    unfold foldAt at h
    split at h
    · next left right rest hlast =>
      obtain ⟨passed, rfl⟩ := List.getLast?_eq_some_iff.1 hlast
      by_cases hleft : isOperand left = true
      · by_cases hright : isOperand right = true
        · simp only [hleft, hright, Bool.not_true, Bool.false_eq_true, if_false,
            Logged.result_bind, Logged.result_noteIf, Logged.result_pure, Except.bind,
            List.dropLast_concat, Except.ok.injEq] at h
          exact ⟨passed, left, right, rest, rfl, rfl, hleft, hright, h.symm⟩
        · simp [hleft, hright] at h
      · simp [hleft] at h
    · simp at h
  · rintro ⟨passed, left, right, rest, rfl, rfl, hleft, hright, rfl⟩
    simp only [foldAt, List.getLast?_concat, List.dropLast_concat, hleft, hright, Bool.not_true,
      Bool.false_eq_true, if_false, Logged.result_bind, Logged.result_noteIf, Logged.result_pure,
      Except.bind]

/-- The leftmost bare operator of the tier is folded with its neighbours. -/
theorem foldTier_step (hbefore : ∀ n ∈ before, isBareOperator tier n = false)
    (hleft : isOperand left = true) (hright : isOperand right = true)
    (hoperator : operator.isIn tier = true) :
    (foldTier debug tier (before ++ left :: .leaf operator :: right :: after)).result =
      (foldTier debug tier (before ++ .branch operator [left, right] :: after)).result := by
  have hfound : firstOperator? tier (before ++ left :: .leaf operator :: right :: after) =
      some (before ++ [left], .leaf operator, right :: after) := by
    have hpassed : ∀ n ∈ before ++ [left], isBareOperator tier n = false := by
      intro n hn
      rcases List.mem_append.1 hn with hn | hn
      · exact hbefore n hn
      · rw [List.mem_singleton.1 hn]
        exact isBareOperator_of_isOperand hleft
    have hbare : isBareOperator tier (.leaf operator) = true := hoperator
    rw [← firstOperator?_append hpassed hbare, List.append_assoc]
    rfl
  rw [foldTier_eq, hfound]
  apply Logged.result_bind_of_ok
  exact foldAt_eq_ok_iff.2 ⟨before, left, right, after, rfl, rfl, hleft, hright, rfl⟩

/-- Folding a tier leaves the row of the runs between the other operators. -/
theorem foldTier_row (debug : Bool) (tier other : List Operator) (before : List Node)
    {links : List (Token × Node)} (hbefore : ∀ n ∈ before, isBareOperator tier n = false)
    (hrow : Run.WellFormed ⟨first, links⟩)
    (hother : ∀ link ∈ links, link.1.isIn tier = !link.1.isIn other) :
    (foldTier debug tier (before ++ Run.siblings ⟨first, links⟩)).result =
      .ok (before ++ (Run.ofRuns (Run.cut other first links)).siblings) := by
  -- The nodes before the row grow by what has been passed, and the first operand takes up what is
  -- folded.
  induction links generalizing before first with
  | nil =>
    apply foldTier_done
    intro n hn
    rcases List.mem_append.1 hn with hn | hn
    · exact hbefore n hn
    · rw [List.mem_singleton.1 hn]
      exact isBareOperator_of_isOperand hrow.first
  | cons link rest ih =>
    obtain ⟨operator, right⟩ := link
    have hright := hrow.operands _ (List.mem_cons_self ..)
    have hoperators := fun link hlink => hrow.operators link (List.mem_cons_of_mem _ hlink)
    have hoperands := fun link hlink => hrow.operands link (List.mem_cons_of_mem _ hlink)
    have hrest := fun link hlink => hother link (List.mem_cons_of_mem _ hlink)
    have hshare : operator.isIn tier = !operator.isIn other := hother _ (List.mem_cons_self ..)
    cases hcut : operator.isIn other with
    | false =>
      rw [hcut] at hshare
      rw [Run.ofRuns_cut_join hcut]
      have hjoined : Run.WellFormed ⟨.branch operator [first, right], rest⟩ :=
        ⟨isOperand_branch operator first [right], hoperators, hoperands⟩
      have hfolded := ih before hbefore hjoined hrest
      rw [← hfolded]
      exact foldTier_step hbefore hrow.first hright hshare
    | true =>
      rw [hcut] at hshare
      rw [Run.ofRuns_cut_end hcut]
      have hpassed : ∀ n ∈ before ++ [first, .leaf operator], isBareOperator tier n = false := by
        intro n hn
        rcases List.mem_append.1 hn with hn | hn
        · exact hbefore n hn
        · rcases List.mem_cons.1 hn with rfl | hn
          · exact isBareOperator_of_isOperand hrow.first
          · rw [List.mem_singleton.1 hn]
            exact hshare
      have hfolded := ih _ hpassed ⟨hright, hoperators, hoperands⟩ hrest
      rw [List.append_assoc, List.append_assoc] at hfolded
      exact hfolded

/-- Folding one tier after the other leaves the tree of a row. -/
theorem foldTiers_row (debug : Bool) (precedence : Precedence) {links : List (Token × Node)}
    (hrow : Run.WellFormed ⟨first, links⟩) :
    ∃ once, (foldTier debug precedence.firstTier (Run.siblings ⟨first, links⟩)).result = .ok once ∧
      (foldTier debug precedence.secondTier once).result = .ok [precedence.tree first links] := by
  obtain ⟨hruns, hcuts⟩ := Run.wellFormed_ofRuns precedence.secondTier hrow
  have hfirst := foldTier_row debug precedence.firstTier precedence.secondTier [] (by simp) hrow
    fun link hlink => precedence.isIn_firstTier (hrow.operators link hlink)
  refine ⟨_, hfirst, ?_⟩
  -- Every operator that is left belongs to the second tier, so nothing is cut.
  have hnone : ∀ token : Token, token.isIn [] = false := by
    intro token
    cases hkind : token.kind <;> simp [Token.isIn, hkind]
  have hsecond := foldTier_row debug precedence.secondTier [] [] (by simp) hruns
    fun link hlink => by rw [hcuts link hlink, hnone]; rfl
  rw [Run.ofRuns_cut_none fun link _ => hnone link.1] at hsecond
  exact hsecond

/-! ### Folding backward -/

/-- Operands with operators between them. -/
inductive Chained : List Node → Prop where
  | last {node : Node} (hnode : isOperand node = true) : Chained [node]
  | more {node operator : Node} {rest : List Node} (hnode : isOperand node = true)
      (hleaf : operator.isLeaf = true) (hoperator : operator.kind.isOperator = true)
      (hrest : Chained rest) : Chained (node :: operator :: rest)

/-- A row that can become a single operand. -/
inductive Foldable : List Node → Prop where
  | chain {siblings : List Node} (h : Chained siblings) : Foldable siblings
  | call {function argument : Node} (hleaf : function.isLeaf = true)
      (hfunction : function.kind.isFunction = true) (hargument : isArgument argument = true) :
      Foldable [function, argument]

/-- A chain was a chain before one of its operands was folded. -/
theorem Chained.unfold {bare : Node}
    (h : Chained (before ++ .branch operator [left, right] :: after))
    (hleft : isOperand left = true) (hright : isOperand right = true) (hleaf : bare.isLeaf = true)
    (hoperator : bare.kind.isOperator = true) :
    Chained (before ++ left :: bare :: right :: after) := by
  -- The induction walks along the chain; the folded node is as far away as `before` is long.
  generalize hrow : before ++ Node.branch operator [left, right] :: after = row at h
  induction h generalizing before with
  | @last node hnode =>
    obtain ⟨rfl, rfl⟩ : before = [] ∧ after = [] := by
      cases before with
      | nil => exact ⟨rfl, (List.cons.inj hrow).2⟩
      | cons first before => simp at hrow
    exact .more hleft hleaf hoperator (.last hright)
  | @more node sign rest hnode hsign hkind hrest ih =>
    cases before with
    | nil =>
      obtain ⟨-, rfl⟩ := List.cons.inj hrow
      exact .more hleft hleaf hoperator (.more hright hsign hkind hrest)
    | cons first before =>
      rw [List.cons_append, List.cons.injEq] at hrow
      obtain ⟨rfl, htail⟩ := hrow
      cases before with
      | nil =>
        -- A folded node is no leaf, so it does not stand where an operator does.
        obtain ⟨rfl, -⟩ := List.cons.inj htail
        cases hsign
      | cons second before =>
        rw [List.cons_append, List.cons.injEq] at htail
        obtain ⟨rfl, htail⟩ := htail
        exact .more hnode hsign hkind (ih htail)

/-- A function and its argument hold no folded operator. -/
theorem Foldable.unfold {bare : Node}
    (h : Foldable (before ++ .branch bare.token [left, right] :: after))
    (hleft : isOperand left = true) (hright : isOperand right = true) (hleaf : bare.isLeaf = true)
    (hoperator : bare.kind.isOperator = true) :
    Foldable (before ++ left :: bare :: right :: after) := by
  generalize hrow : before ++ Node.branch bare.token [left, right] :: after = row at h
  cases h with
  | chain h =>
    subst hrow
    exact .chain (h.unfold hleft hright hleaf hoperator)
  | @call function argument hbare hfunction hargument =>
    -- A folded node has children, unlike the name of a function.  Unlike an argument with children,
    -- it has an operator for its kind.
    exfalso
    have hmem : Node.branch bare.token [left, right] ∈ [function, argument] := by
      rw [← hrow]
      simp
    rcases List.mem_cons.1 hmem with heq | hmem
    · rw [← heq] at hbare
      cases hbare
    · rw [← List.mem_singleton.1 hmem] at hargument
      have hkind : bare.kind = .phrase .expr := by
        simpa [isArgument, Node.isLeaf, Node.branch, Node.kind] using hargument
      rw [hkind] at hoperator
      cases hoperator

theorem isBareOperator_of_firstOperator?
    (h : firstOperator? tier siblings = some (before, node, after)) :
    isBareOperator tier node = true := by
  induction siblings generalizing before with
  | nil => cases h
  | cons other rest ih =>
    rw [firstOperator?] at h
    split at h
    · next hother =>
      cases h
      exact hother
    · obtain ⟨⟨passed, found, later⟩, hfound, heq⟩ := Option.map_eq_some_iff.1 h
      cases heq
      exact ih hfound

theorem foldable_of_foldAt (h : (foldAt debug before node after).result = .ok siblings)
    (hnode : isBareOperator tier node = true) (hfold : Foldable siblings) :
    Foldable (before ++ node :: after) := by
  rw [isBareOperator_eq, Bool.and_eq_true] at hnode
  have hoperator : node.kind.isOperator = true := by
    by_cases hkind : node.token.kind.isOperator = true
    · exact hkind
    · rw [Token.isIn_eq_false (Bool.eq_false_iff.2 hkind)] at hnode
      cases hnode.2
  obtain ⟨passed, left, right, rest, rfl, rfl, hleft, hright, rfl⟩ := foldAt_eq_ok_iff.1 h
  rw [List.append_assoc]
  exact hfold.unfold hleft hright hnode.1 hoperator

/-- What is foldable after a tier was folded has been foldable before. -/
theorem foldable_of_foldTier {folded : List Node}
    (h : (foldTier debug tier siblings).result = .ok folded) (hfold : Foldable folded) :
    Foldable siblings := by
  rw [foldTier] at h
  -- How many rounds there are does not matter here: each of them is undone.
  generalize siblings.length = rounds at h
  induction rounds generalizing siblings with
  | zero =>
    cases h
    exact hfold
  | succ rounds ih =>
    rw [foldRounds] at h
    cases hfirst : firstOperator? tier siblings with
    | none =>
      rw [hfirst] at h
      cases h
      exact hfold
    | some found =>
      obtain ⟨before, bare, after⟩ := found
      rw [hfirst] at h
      obtain ⟨once, honce, hrest⟩ := Logged.result_bind_eq_ok.1 h
      rw [append_of_firstOperator? hfirst]
      exact foldable_of_foldAt honce (isBareOperator_of_firstOperator? hfirst) (ih hrest)

theorem applyFunctions_eq_nil (h : (applyFunctions debug siblings).result = .ok []) :
    siblings = [] := by
  cases siblings with
  | nil => rfl
  | cons node rest =>
    exfalso
    cases rest with
    | nil =>
      rw [applyFunctions] at h
      split at h <;> cases h
    | cons next rest =>
      rw [applyFunctions] at h
      split at h
      · split at h
        · obtain ⟨_, -, h⟩ := Logged.result_bind_eq_ok.1 h
          obtain ⟨later, -, h⟩ := Logged.result_bind_eq_ok.1 h
          cases h
        · cases h
      · obtain ⟨later, -, h⟩ := Logged.result_bind_eq_ok.1 h
        cases h

/-- What applying functions makes a single operand of has been an operand, or a function and its
    argument. -/
theorem foldable_of_applyFunctions (h : (applyFunctions debug siblings).result = .ok [node])
    (hnode : isOperand node = true) : Foldable siblings := by
  cases siblings with
  | nil => cases h
  | cons first rest =>
    cases rest with
    | nil =>
      rw [applyFunctions] at h
      split at h
      · cases h
      · cases h
        exact .chain (.last hnode)
    | cons next rest =>
      rw [applyFunctions] at h
      split at h
      · next hfunction =>
        rw [Bool.and_eq_true] at hfunction
        split at h
        · next hargument =>
          -- The call is the single operand, so nothing stands behind it.
          obtain ⟨_, -, h⟩ := Logged.result_bind_eq_ok.1 h
          obtain ⟨later, hlater, h⟩ := Logged.result_bind_eq_ok.1 h
          cases h
          rw [applyFunctions_eq_nil hlater]
          exact .call hfunction.1 hfunction.2 hargument
        · cases h
      · obtain ⟨later, hlater, h⟩ := Logged.result_bind_eq_ok.1 h
        cases h
        cases applyFunctions_eq_nil hlater

end CalcLang
