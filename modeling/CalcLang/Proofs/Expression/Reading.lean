import CalcLang.Proofs.Expression.Folding

/-! # Reading an expression

    The reader of expressions against their grammar, in both directions:

    * `Expression.read`: the span of a derivation is read as its tree if there is room for its
      depth, and is nested too deeply otherwise.
    * `opensExpression_of_read`: what a span that is read starts with, be it of words or not.
    * `exists_expression_of_read`: a span that is read has a derivation.
    * `exists_tree_of_read`: what is read is the tree of a derivation. -/

namespace CalcLang

variable {options : ReadOptions} {precedence : Precedence} {span : List Token} {first : Token}
  {rest : List Token} {inner : List Token → Logged ParseError Node} {room : Nat} {node : Node}

/-! ### The words of a derivation -/

theorem Kind.isArithmetic_of_isNumeral {kind : Kind} (h : kind.isNumeral = true) :
    kind.isArithmetic = true := by
  simp [isArithmetic, h]

theorem Kind.isParen_of_isNumeral {kind : Kind} (h : kind.isNumeral = true) :
    kind.isParen = false := by
  cases kind <;> simp_all [isNumeral, isParen]

theorem Kind.isParen_of_isOperator {kind : Kind} (h : kind.isOperator = true) :
    kind.isParen = false := by
  cases kind <;> simp_all [isOperator, isParen]

theorem Kind.isParen_of_isFunction {kind : Kind} (h : kind.isFunction = true) :
    kind.isParen = false := by
  cases kind <;> simp_all [isFunction, isParen]

theorem Kind.isNumeral_of_isFunction {kind : Kind} (h : kind.isFunction = true) :
    kind.isNumeral = false := by
  cases kind <;> simp_all [isFunction, isNumeral]

theorem Kind.isOperator_of_isFunction {kind : Kind} (h : kind.isFunction = true) :
    kind.isOperator = false := by
  cases kind <;> simp_all [isFunction, isOperator]

theorem Kind.endsLine_of_isArithmetic {kind : Kind} (h : kind.isArithmetic = true) :
    kind.endsLine = false := by
  cases kind <;> simp_all [isArithmetic, isNumeral, isOperator, isFunction, isParen, endsLine]

/-- The kinds that a span that is read may start with: those of the words of expressions, and that of
    a whole expression, which no text is cut into. -/
def Kind.opensExpression (kind : Kind) : Bool :=
  kind.isArithmetic || kind == .phrase .expr

theorem Kind.opensExpression_of_isArithmetic {kind : Kind} (h : kind.isArithmetic = true) :
    kind.opensExpression = true := by
  simp [opensExpression, h]

mutual

theorem Operand.isArithmetic : (operand : Operand) →
    ∀ t ∈ operand.tokens, t.kind.isArithmetic = true
  | .numeral token hnumeral => by
    intro t ht
    rw [List.mem_singleton.1 ht]
    exact Kind.isArithmetic_of_isNumeral hnumeral
  | .group opening inner closing hopen hclose => by
    intro t ht
    have hinner := inner.isArithmetic
    rcases List.mem_append.1 ht with ht | ht
    · rcases List.mem_cons.1 ht with rfl | ht
      · rw [hopen]; rfl
      · exact hinner t ht
    · rw [List.mem_singleton.1 ht, hclose]; rfl

theorem Links.isArithmetic : (links : Links) → ∀ t ∈ links.tokens, t.kind.isArithmetic = true
  | .nil => by simp [Links.tokens]
  | .cons operator right rest hoperator => by
    intro t ht
    have hright := right.isArithmetic
    have hrest := rest.isArithmetic
    rcases List.mem_append.1 ht with ht | ht
    · rcases List.mem_cons.1 ht with rfl | ht
      · simp [Kind.isArithmetic, hoperator]
      · exact hright t ht
    · exact hrest t ht

/-- An expression holds the words of expressions only. -/
theorem Expression.isArithmetic : (expression : Expression) →
    ∀ t ∈ expression.tokens, t.kind.isArithmetic = true
  | .chain first links => by
    intro t ht
    have hfirst := first.isArithmetic
    have hlinks := links.isArithmetic
    rcases List.mem_append.1 ht with ht | ht
    · exact hfirst t ht
    · exact hlinks t ht
  | .call function argument hfunction => by
    intro t ht
    have hargument := argument.isArithmetic
    rcases List.mem_cons.1 ht with rfl | ht
    · simp [Kind.isArithmetic, hfunction]
    · exact hargument t ht

end

theorem Operand.tokens_ne_nil (operand : Operand) : operand.tokens ≠ [] := by
  cases operand <;> simp [Operand.tokens]

theorem Expression.tokens_ne_nil (expression : Expression) : expression.tokens ≠ [] := by
  cases expression with
  | chain first links => simp [Expression.tokens, first.tokens_ne_nil]
  | call function argument => simp [Expression.tokens]

mutual

theorem Operand.balanced : (operand : Operand) → Balanced operand.tokens
  | .numeral _ hnumeral => .word (Kind.isParen_of_isNumeral hnumeral) .nil
  | .group _ inner _ hopen hclose => .group hopen inner.balanced hclose

theorem Links.balanced : (links : Links) → Balanced links.tokens
  | .nil => .nil
  | .cons _ right rest hoperator =>
    .word (Kind.isParen_of_isOperator hoperator) (right.balanced.append rest.balanced)

/-- The parentheses of an expression are balanced. -/
theorem Expression.balanced : (expression : Expression) → Balanced expression.tokens
  | .chain first links => first.balanced.append links.balanced
  | .call _ argument hfunction => .word (Kind.isParen_of_isFunction hfunction) argument.balanced

end

/-! ### The pieces of a derivation -/

/-- The piece of a span that an operand is. -/
def Operand.segment : Operand → Segment
  | .numeral token _ => .token token
  | .group opening inner closing _ _ => .group opening inner.tokens closing

/-- The pieces of a span that some operators and operands are. -/
def Links.segments : Links → List Segment
  | .nil => []
  | .cons operator right rest _ => .token operator :: right.segment :: rest.segments

/-- The pieces of a span that an expression is. -/
def Expression.segments : Expression → List Segment
  | .chain first links => first.segment :: links.segments
  | .call function argument _ => [.token function, argument.segment]

@[simp] theorem Operand.tokens_segment (operand : Operand) :
    operand.segment.tokens = operand.tokens := by
  cases operand <;> rfl

theorem Operand.wellFormed_segment (operand : Operand) : operand.segment.WellFormed := by
  cases operand with
  | numeral token hnumeral => exact Kind.isParen_of_isNumeral hnumeral
  | group opening inner closing hopen hclose =>
    exact ⟨hopen, hclose, inner.tokens_ne_nil, inner.balanced⟩

theorem Links.flatMap_segments : (links : Links) →
    links.segments.flatMap Segment.tokens = links.tokens
  | .nil => rfl
  | .cons operator right rest _ => by
    simp [Links.segments, Links.tokens, rest.flatMap_segments]

theorem Links.wellFormed_segments : (links : Links) → ∀ s ∈ links.segments, s.WellFormed
  | .nil => by simp [Links.segments]
  | .cons operator right rest hoperator => by
    intro s hs
    have hrest := rest.wellFormed_segments
    rcases List.mem_cons.1 hs with rfl | hs
    · exact Kind.isParen_of_isOperator hoperator
    · rcases List.mem_cons.1 hs with rfl | hs
      · exact right.wellFormed_segment
      · exact hrest s hs

theorem Expression.splitGroups_tokens (expression : Expression) :
    splitGroups expression.tokens = .ok expression.segments := by
  apply splitGroups_eq_ok_iff.2
  cases expression with
  | chain first links =>
    refine ⟨?_, by simp [Expression.segments, Expression.tokens, links.flatMap_segments]⟩
    intro s hs
    rcases List.mem_cons.1 hs with rfl | hs
    · exact first.wellFormed_segment
    · exact links.wellFormed_segments s hs
  | call function argument hfunction =>
    refine ⟨?_, by simp [Expression.segments, Expression.tokens]⟩
    intro s hs
    rcases List.mem_cons.1 hs with rfl | hs
    · exact Kind.isParen_of_isFunction hfunction
    · rw [List.mem_singleton.1 hs]
      exact argument.wellFormed_segment

/-! ### One level of parentheses -/

/-- Reads one piece of a span, where `inner` reads the inside of a group. -/
def readSegment (inner : List Token → Logged ParseError Node) : Segment → Logged ParseError Node
  | .token token => pure (.leaf token)
  | .group _ tokens _ => inner tokens

theorem readSiblings_cons (segment : Segment) (segments : List Segment) :
    readSiblings inner (segment :: segments) = (do
      let node ← readSegment inner segment
      let later ← readSiblings inner segments
      pure (node :: later)) := by
  cases segment <;> rfl

/-- Folds the siblings of an expression into its tree. -/
def foldSiblings (options : ReadOptions) (span : List Token) (first : Token)
    (siblings : List Node) : Logged ParseError Node := do
  let once ← foldTier options.debug options.precedence.firstTier siblings
  let twice ← foldTier options.debug options.precedence.secondTier once
  let applied ← applyFunctions options.debug twice
  .ofExcept (closeExpression span first applied)

/-- A span that is no lone numeral is cut, its pieces are read and the siblings are folded. -/
theorem result_readLevel (hlone : (rest.isEmpty && first.kind.isNumeral) = false)
    (hline : ∀ t ∈ first :: rest, t.kind.endsLine = false) :
    (readLevel options inner first rest).result =
      (Logged.ofExcept (splitGroups (first :: rest)) >>= fun segments =>
        readSiblings inner segments >>= foldSiblings options (first :: rest) first).result := by
  have hnone : (first :: rest).find? (·.kind.endsLine) = none := by
    rw [List.find?_eq_none]
    intro t ht
    simp [hline t ht]
  rw [readLevel, if_neg (by simp [hlone]), hnone]
  -- The two sides differ in what is logged, so they agree in their results only.
  simp only [Logged.result_bind, Logged.result_noteIf, Except.bind, foldSiblings]

theorem closeExpression_single (h : isOperand node = true) :
    closeExpression span first [node] = .ok (wrapExpression first.line node) := by
  rw [closeExpression, if_neg (by simp [h]), wrapExpression]
  split <;> rfl

theorem exists_of_closeExpression {siblings : List Node}
    (h : closeExpression span first siblings = .ok node) :
    ∃ single, siblings = [single] ∧ isOperand single = true ∧
      node = wrapExpression first.line single := by
  cases siblings with
  | nil => cases h
  | cons single rest =>
    cases rest with
    | cons second rest => cases h
    | nil =>
      by_cases hsingle : isOperand single = true
      · rw [closeExpression_single hsingle] at h
        exact ⟨single, rfl, hsingle, (Except.ok.inj h).symm⟩
      · simp [closeExpression, hsingle] at h

theorem isFunction_of_isOperand (h : isOperand node = true) :
    (node.isLeaf && node.kind.isFunction) = false := by
  cases hleaf : node.isLeaf
  · rfl
  · cases hkind : node.kind <;>
      simp_all [isOperand, Kind.isFunction, Kind.isNumeral]

/-- A row of operands with operators between them becomes its tree. -/
theorem foldSiblings_chain {head : Node} {links : List (Token × Node)}
    (hrow : Run.WellFormed ⟨head, links⟩) :
    (foldSiblings options span first (Run.siblings ⟨head, links⟩)).result =
      .ok (wrapExpression first.line (options.precedence.tree head links)) := by
  obtain ⟨hruns, -⟩ := Run.wellFormed_ofRuns options.precedence.secondTier hrow
  have hoperand : isOperand (options.precedence.tree head links) = true :=
    Run.isOperand_fold hruns.first
  obtain ⟨once, honce, htwice⟩ := foldTiers_row options.debug options.precedence hrow
  have happlied : (applyFunctions options.debug [options.precedence.tree head links]).result =
      .ok [options.precedence.tree head links] := by
    rw [applyFunctions, if_neg (by simp [isFunction_of_isOperand hoperand])]
    rfl
  rw [foldSiblings, Logged.result_bind_of_ok _ honce, Logged.result_bind_of_ok _ htwice,
    Logged.result_bind_of_ok _ happlied, Logged.result_ofExcept, closeExpression_single hoperand]

/-- A function and its argument become a call. -/
theorem foldSiblings_call {function : Token} {argument : Node}
    (hfunction : function.kind.isFunction = true) (hargument : isArgument argument = true) :
    (foldSiblings options span first [.leaf function, argument]).result =
      .ok (wrapExpression first.line (.branch function [argument])) := by
  have hbare : ∀ tier, ∀ n ∈ [Node.leaf function, argument], isBareOperator tier n = false := by
    intro tier n hn
    rcases List.mem_cons.1 hn with rfl | hn
    · rw [isBareOperator_eq, Token.isIn_eq_false]
      · exact Bool.and_false _
      · exact Kind.isOperator_of_isFunction hfunction
    · rw [List.mem_singleton.1 hn]
      exact isBareOperator_of_isOperand (isOperand_of_isArgument hargument)
  have happlied : (applyFunctions options.debug [.leaf function, argument]).result =
      .ok [.branch function [argument]] := by
    have hname : ((Node.leaf function).isLeaf && (Node.leaf function).kind.isFunction) = true :=
      hfunction
    rw [applyFunctions, if_pos hname, if_pos hargument]
    simp only [Logged.result_bind, Logged.result_noteIf, Except.bind]
    rfl
  rw [foldSiblings, Logged.result_bind_of_ok _ (foldTier_done (hbare _)),
    Logged.result_bind_of_ok _ (foldTier_done (hbare _)), Logged.result_bind_of_ok _ happlied,
    Logged.result_ofExcept, closeExpression_single (isOperand_branch function argument [])]

/-- Siblings that become a tree have been a chain, or a function and its argument. -/
theorem foldable_of_foldSiblings {siblings : List Node}
    (h : (foldSiblings options span first siblings).result = .ok node) : Foldable siblings := by
  obtain ⟨once, honce, h⟩ := Logged.result_bind_eq_ok.1 h
  obtain ⟨twice, htwice, h⟩ := Logged.result_bind_eq_ok.1 h
  obtain ⟨applied, happlied, h⟩ := Logged.result_bind_eq_ok.1 h
  obtain ⟨single, rfl, hsingle, -⟩ := exists_of_closeExpression h
  exact foldable_of_foldTier honce
    (foldable_of_foldTier htwice (foldable_of_applyFunctions happlied hsingle))

/-! ### The siblings of a derivation -/

theorem isArgument_wrapExpression (line : Nat) (node : Node) :
    isArgument (wrapExpression line node) = true := by
  unfold wrapExpression
  split
  · next hkind => simp [isArgument, hkind]
  · rfl

/-- An expression of a single numeral. -/
def Expression.isLone : Expression → Bool
  | .chain (.numeral _ _) .nil => true
  | _ => false

/-- The first token of an expression. -/
def Expression.head : Expression → Token
  | .chain first _ => first.head
  | .call function _ _ => function

/-- The siblings that an expression is folded from. -/
def Expression.siblings (precedence : Precedence) : Expression → List Node
  | .chain first links => Run.siblings ⟨first.tree precedence, links.trees precedence⟩
  | .call function argument _ => [.leaf function, argument.tree precedence]

theorem Expression.exists_tail (expression : Expression) :
    ∃ rest, expression.tokens = expression.head :: rest := by
  cases expression with
  | chain first links => cases first <;> simp [tokens, head, Operand.tokens, Operand.head]
  | call function argument => simp [tokens, head]

theorem Expression.isArgument_tree (precedence : Precedence) (expression : Expression) :
    isArgument (expression.tree precedence) = true := by
  cases expression with
  | chain first links =>
    cases first with
    | numeral token hnumeral =>
      cases links with
      | nil => simp [tree, isArgument, Node.leaf, Node.branch, Node.isLeaf, Node.kind, hnumeral]
      | cons operator right rest => exact isArgument_wrapExpression _ _
    | group opening inner closing => exact isArgument_wrapExpression _ _
  | call function argument => exact isArgument_wrapExpression _ _

theorem Operand.isArgument_tree (precedence : Precedence) (operand : Operand) :
    isArgument (operand.tree precedence) = true := by
  cases operand with
  | numeral token hnumeral =>
    simp [tree, isArgument, Node.leaf, Node.branch, Node.isLeaf, Node.kind, hnumeral]
  | group opening inner closing => exact inner.isArgument_tree precedence

theorem Links.wellFormed_trees (precedence : Precedence) : (links : Links) →
    ∀ link ∈ links.trees precedence, link.1.kind.isOperator = true ∧ isOperand link.2 = true
  | .nil => by simp [Links.trees]
  | .cons operator right rest hoperator => by
    intro link hlink
    have hrest := rest.wellFormed_trees precedence
    rcases List.mem_cons.1 hlink with rfl | hlink
    · exact ⟨hoperator, isOperand_of_isArgument (right.isArgument_tree precedence)⟩
    · exact hrest link hlink

/-- The operands of a chain and the operators between them are a row. -/
theorem Operand.wellFormed_run (precedence : Precedence) (first : Operand) (links : Links) :
    Run.WellFormed ⟨first.tree precedence, links.trees precedence⟩ where
  first := isOperand_of_isArgument (first.isArgument_tree precedence)
  operators link hlink := (links.wellFormed_trees precedence link hlink).1
  operands link hlink := (links.wellFormed_trees precedence link hlink).2

theorem Expression.isNumeral_head {expression : Expression} (hlone : expression.isLone = false)
    (htokens : expression.tokens = first :: rest) :
    (rest.isEmpty && first.kind.isNumeral) = false := by
  cases expression with
  | chain head links =>
    cases head with
    | numeral token hnumeral =>
      cases links with
      | nil => cases hlone
      | cons operator right later =>
        cases htokens
        rfl
    | group opening inner closing hopen hclose =>
      cases htokens
      rw [hopen]
      exact Bool.and_false _
  | call function argument hfunction =>
    obtain ⟨rfl, -⟩ := List.cons.inj htokens
    rw [Kind.isNumeral_of_isFunction hfunction]
    exact Bool.and_false _

/-- The siblings of an expression are folded into its tree. -/
theorem Expression.foldSiblings_siblings {expression : Expression}
    (hlone : expression.isLone = false) :
    (foldSiblings options span expression.head
        (expression.siblings options.precedence)).result =
      .ok (expression.tree options.precedence) := by
  cases expression with
  | chain first links =>
    have htree : (Expression.chain first links).tree options.precedence =
        wrapExpression first.head.line
          (options.precedence.tree (first.tree options.precedence)
            (links.trees options.precedence)) := by
      cases first with
      | group opening inner closing => rfl
      | numeral token hnumeral =>
        cases links with
        | nil => cases hlone
        | cons operator right rest => rfl
    rw [htree]
    exact foldSiblings_chain (first.wellFormed_run options.precedence links)
  | call function argument hfunction =>
    exact foldSiblings_call hfunction (argument.isArgument_tree options.precedence)

/-! ### From a derivation to a reading -/

/-- How a reading ends that needs more room than a given depth: with a value if there is the room,
    and otherwise with the complaint that one of its tokens is nested too deeply. -/
structure Outcome {α : Type} (result : Except ParseError α) (span : List Token)
    (depth room : Nat) (value : α) : Prop where
  fits : depth < room → result = .ok value
  nested : room ≤ depth → ∃ token ∈ span, result = .error (.pinned token .nestedTooDeeply)

theorem Outcome.token (token : Token) :
    Outcome (readSegment inner (.token token)).result [token] 0 (room + 1) (.leaf token) :=
  ⟨fun _ => rfl, fun h => absurd h (Nat.not_succ_le_zero _)⟩

theorem Outcome.nil : Outcome (readSiblings inner []).result [] 0 (room + 1) [] :=
  ⟨fun _ => rfl, fun h => absurd h (Nat.not_succ_le_zero _)⟩

theorem Outcome.cons {segment : Segment} {segments : List Segment} {later : List Node}
    {depth depth' : Nat}
    (hfirst : Outcome (readSegment inner segment).result segment.tokens depth room node)
    (hrest : Outcome (readSiblings inner segments).result rest depth' room later) :
    Outcome (readSiblings inner (segment :: segments)).result (segment.tokens ++ rest)
      (max depth depth') room (node :: later) := by
  rw [readSiblings_cons]
  constructor
  · intro h
    have hnode := hfirst.fits (by omega)
    have hlater := hrest.fits (by omega)
    rw [Logged.result_bind_of_ok _ hnode, Logged.result_bind_of_ok _ hlater, Logged.result_pure]
  · intro h
    -- The pieces are read in order, so the complaint is about the first one that is too deep.
    by_cases hdepth : depth < room
    · obtain ⟨token, htoken, herror⟩ := hrest.nested (by omega)
      refine ⟨token, List.mem_append_right _ htoken, ?_⟩
      rw [Logged.result_bind_of_ok _ (hfirst.fits hdepth), Logged.result_bind_of_error _ herror]
    · obtain ⟨token, htoken, herror⟩ := hfirst.nested (by omega)
      refine ⟨token, List.mem_append_left _ htoken, ?_⟩
      rw [Logged.result_bind_of_error _ herror]

/-- An expression without any room is nested too deeply. -/
theorem Expression.read_zero (expression : Expression) :
    Outcome (readExpressionWithin options 0 expression.tokens).result expression.tokens
      expression.depth 0 (expression.tree options.precedence) := by
  obtain ⟨rest, htokens⟩ := expression.exists_tail
  rw [htokens]
  refine ⟨fun h => absurd h (Nat.not_lt_zero _), fun _ => ?_⟩
  exact ⟨expression.head, List.mem_cons_self .., rfl⟩

/-- If the pieces of an expression are read, so is the expression. -/
theorem Expression.read_level {expression : Expression} (hlone : expression.isLone = false)
    (hsiblings : Outcome (readSiblings (readExpressionWithin options room)
      expression.segments).result expression.tokens expression.depth (room + 1)
      (expression.siblings options.precedence)) :
    Outcome (readExpressionWithin options (room + 1) expression.tokens).result expression.tokens
      expression.depth (room + 1) (expression.tree options.precedence) := by
  obtain ⟨rest, htokens⟩ := expression.exists_tail
  have hline : ∀ t ∈ expression.head :: rest, t.kind.endsLine = false := by
    intro t ht
    rw [← htokens] at ht
    exact Kind.endsLine_of_isArithmetic (expression.isArithmetic t ht)
  have hlevel : (readExpressionWithin options (room + 1) expression.tokens).result =
      (readSiblings (readExpressionWithin options room) expression.segments >>=
        foldSiblings options expression.tokens expression.head).result := by
    rw [htokens, readExpressionWithin,
      result_readLevel (Expression.isNumeral_head hlone htokens) hline, ← htokens,
      expression.splitGroups_tokens]
    exact Logged.result_bind_of_ok _ rfl
  rw [hlevel]
  constructor
  · intro h
    rw [Logged.result_bind_of_ok _ (hsiblings.fits h)]
    exact Expression.foldSiblings_siblings hlone
  · intro h
    obtain ⟨token, htoken, herror⟩ := hsiblings.nested h
    exact ⟨token, htoken, Logged.result_bind_of_error _ herror⟩

mutual

theorem Operand.read (options : ReadOptions) (room : Nat) : (operand : Operand) →
    Outcome (readSegment (readExpressionWithin options room) operand.segment).result
      operand.tokens operand.depth (room + 1) (operand.tree options.precedence)
  | .numeral token _ => Outcome.token token
  | .group opening inner closing hopen hclose => by
    have hinner := inner.read options room
    constructor
    · intro h
      exact hinner.fits (Nat.lt_of_succ_lt_succ h)
    · intro h
      obtain ⟨token, htoken, herror⟩ := hinner.nested (Nat.le_of_succ_le_succ h)
      refine ⟨token, ?_, herror⟩
      exact List.mem_append_left _ (List.mem_cons_of_mem _ htoken)

theorem Links.read (options : ReadOptions) (room : Nat) : (links : Links) →
    Outcome (readSiblings (readExpressionWithin options room) links.segments).result
      links.tokens links.depth (room + 1)
      ((links.trees options.precedence).flatMap fun link => [.leaf link.1, link.2])
  | .nil => Outcome.nil
  | .cons operator right rest _ => by
    have hright := right.read options room
    have hrest := rest.read options room
    rw [← right.tokens_segment] at hright
    have hall := (Outcome.token operator).cons (hright.cons hrest)
    rw [Nat.zero_max, right.tokens_segment] at hall
    exact hall

/-- The span of a derivation is read as its tree if there is more room than its depth, and is nested
    too deeply otherwise. -/
theorem Expression.read (options : ReadOptions) : (room : Nat) → (expression : Expression) →
    Outcome (readExpressionWithin options room expression.tokens).result expression.tokens
      expression.depth room (expression.tree options.precedence)
  | 0, expression => expression.read_zero
  | room + 1, .chain (.numeral token hnumeral) .nil => by
    -- A lone numeral is a leaf at once; all other expressions are read from their pieces.
    refine ⟨fun _ => ?_, fun h => absurd h (Nat.not_succ_le_zero _)⟩
    show (readLevel options (readExpressionWithin options room) token []).result = _
    rw [readLevel, if_pos (by simpa using hnumeral)]
    rfl
  | room + 1, .chain (.numeral token hnumeral) (.cons operator right rest hoperator) => by
    have hfirst := Operand.read options room (.numeral token hnumeral)
    have hlinks := Links.read options room (.cons operator right rest hoperator)
    exact Expression.read_level rfl (hfirst.cons hlinks)
  | room + 1, .chain (.group opening inner closing hopen hclose) links => by
    have hfirst := Operand.read options room (.group opening inner closing hopen hclose)
    have hlinks := links.read options room
    exact Expression.read_level rfl (hfirst.cons hlinks)
  | room + 1, .call function argument hfunction => by
    have hargument := argument.read options room
    rw [← argument.tokens_segment] at hargument
    have hall := (Outcome.token function).cons (hargument.cons Outcome.nil)
    rw [Nat.zero_max, Nat.max_zero, argument.tokens_segment, List.append_nil] at hall
    exact Expression.read_level rfl hall

end

/-! ### From a reading to a derivation -/

theorem exists_cons_of_readSiblings {segments : List Segment} {later : List Node}
    (h : (readSiblings inner segments).result = .ok (node :: later)) :
    ∃ segment rest, segments = segment :: rest ∧ (readSegment inner segment).result = .ok node ∧
      (readSiblings inner rest).result = .ok later := by
  cases segments with
  | nil => cases h
  | cons segment rest =>
    rw [readSiblings_cons] at h
    obtain ⟨first, hfirst, h⟩ := Logged.result_bind_eq_ok.1 h
    obtain ⟨others, hothers, h⟩ := Logged.result_bind_eq_ok.1 h
    cases h
    exact ⟨segment, rest, rfl, hfirst, hothers⟩

theorem eq_nil_of_readSiblings {segments : List Segment}
    (h : (readSiblings inner segments).result = .ok []) : segments = [] := by
  cases segments with
  | nil => rfl
  | cons segment rest =>
    rw [readSiblings_cons] at h
    obtain ⟨first, -, h⟩ := Logged.result_bind_eq_ok.1 h
    obtain ⟨others, -, h⟩ := Logged.result_bind_eq_ok.1 h
    cases h

/-- A span with an end of a line inside is not read. -/
theorem endsLine_of_read (h : (readExpressionWithin options room span).result = .ok node) :
    ∀ t ∈ span, t.kind.endsLine = false := by
  intro t ht
  cases span with
  | nil => cases ht
  | cons first rest =>
    cases room with
    | zero => cases h
    | succ room =>
      rw [readExpressionWithin] at h
      cases hlone : rest.isEmpty && first.kind.isNumeral with
      | true =>
        rw [Bool.and_eq_true, List.isEmpty_iff] at hlone
        rw [hlone.1, List.mem_singleton] at ht
        rw [ht]
        exact Kind.endsLine_of_isArithmetic (Kind.isArithmetic_of_isNumeral hlone.2)
      | false =>
        cases hends : (first :: rest).find? (·.kind.endsLine) with
        | some token =>
          rw [readLevel, if_neg (by simp [hlone]), hends] at h
          cases h
        | none =>
          have hnone := List.find?_eq_none.1 hends t ht
          exact Bool.eq_false_iff.2 hnone

/-- Whatever is read is a lone numeral, or is cut into pieces that are read and folded. -/
theorem exists_siblings_of_read
    (h : (readExpressionWithin options (room + 1) span).result = .ok node) :
    (∃ token, span = [token] ∧ token.kind.isNumeral = true ∧ node = .leaf token) ∨
      ∃ first segments siblings, splitGroups span = .ok segments ∧
        (readSiblings (readExpressionWithin options room) segments).result = .ok siblings ∧
        (foldSiblings options span first siblings).result = .ok node := by
  have hline := endsLine_of_read h
  cases span with
  | nil => cases h
  | cons first rest =>
    rw [readExpressionWithin] at h
    cases hlone : rest.isEmpty && first.kind.isNumeral with
    | true =>
      rw [readLevel, if_pos hlone] at h
      rw [Bool.and_eq_true, List.isEmpty_iff] at hlone
      cases h
      exact .inl ⟨first, by rw [hlone.1], hlone.2, rfl⟩
    | false =>
      rw [result_readLevel hlone hline] at h
      obtain ⟨segments, hsegments, h⟩ := Logged.result_bind_eq_ok.1 h
      obtain ⟨siblings, hsiblings, h⟩ := Logged.result_bind_eq_ok.1 h
      exact .inr ⟨first, segments, siblings, hsegments, hsiblings, h⟩

/-- Whatever is read may stand as an argument. -/
theorem isArgument_of_read (h : (readExpressionWithin options room span).result = .ok node) :
    isArgument node = true := by
  cases room with
  | zero => cases span <;> cases h
  | succ room =>
    rcases exists_siblings_of_read h with ⟨token, -, hnumeral, rfl⟩ | ⟨_, _, _, -, -, h⟩
    · simp [isArgument, Node.leaf, Node.branch, Node.isLeaf, Node.kind, hnumeral]
    · obtain ⟨once, -, h⟩ := Logged.result_bind_eq_ok.1 h
      obtain ⟨twice, -, h⟩ := Logged.result_bind_eq_ok.1 h
      obtain ⟨applied, -, h⟩ := Logged.result_bind_eq_ok.1 h
      obtain ⟨single, -, -, rfl⟩ := exists_of_closeExpression h
      exact isArgument_wrapExpression _ _

section Pieces

/-! The pieces of a span, where every span of words that is read with less room has a derivation. -/

variable {segment : Segment} {segments : List Segment} {siblings : List Node}

/-- A piece that is read as an operator or a function is a bare token. -/
theorem token_of_readSegment
    (h : (readSegment (readExpressionWithin options room) segment).result = .ok node)
    (hnode : isArgument node = false) : ∃ token, segment = .token token ∧ node = .leaf token := by
  cases segment with
  | token token =>
    cases h
    exact ⟨token, rfl, rfl⟩
  | group opening inner closing =>
    rw [isArgument_of_read h] at hnode
    cases hnode

/-- A piece that is read as an operand starts as an expression may. -/
theorem exists_head_of_readSegment (hsegment : segment.WellFormed)
    (h : (readSegment (readExpressionWithin options room) segment).result = .ok node)
    (hnode : isOperand node = true) :
    ∃ head tail, segment.tokens = head :: tail ∧ head.kind.opensExpression = true := by
  cases segment with
  | token token =>
    cases h
    refine ⟨token, [], rfl, ?_⟩
    have hkind : token.kind = .phrase .expr ∨ token.kind.isNumeral = true := by
      simpa [isOperand, Node.leaf, Node.branch, Node.isLeaf, Node.kind] using hnode
    rcases hkind with hphrase | hnumeral
    · rw [hphrase]
      rfl
    · exact Kind.opensExpression_of_isArithmetic (Kind.isArithmetic_of_isNumeral hnumeral)
  | group opening inner closing =>
    refine ⟨opening, inner ++ [closing], rfl, ?_⟩
    rw [hsegment.1]
    rfl

/-- A span that is read, words or not, starts as an expression may. -/
theorem opensExpression_of_read
    (h : (readExpressionWithin options room (first :: rest)).result = .ok node) :
    first.kind.opensExpression = true := by
  cases room with
  | zero => cases h
  | succ room =>
    rcases exists_siblings_of_read h with
      ⟨token, hlone, hnumeral, -⟩ | ⟨_, segments, siblings, hsegments, hsiblings, hfold⟩
    · cases hlone
      exact Kind.opensExpression_of_isArithmetic (Kind.isArithmetic_of_isNumeral hnumeral)
    · obtain ⟨hformed, hspan⟩ := splitGroups_eq_ok_iff.1 hsegments
      have hoperand : ∀ head later, siblings = head :: later → isOperand head = true →
          first.kind.opensExpression = true := by
        rintro head later rfl hhead
        obtain ⟨segment, others, rfl, hread, -⟩ := exists_cons_of_readSiblings hsiblings
        obtain ⟨token, tail, htokens, hopens⟩ :=
          exists_head_of_readSegment (hformed segment (List.mem_cons_self ..)) hread hhead
        rw [List.flatMap_cons, htokens] at hspan
        cases hspan
        exact hopens
      cases foldable_of_foldSiblings hfold with
      | chain hchain =>
        cases hchain with
        | last hnode => exact hoperand _ _ rfl hnode
        | more hnode => exact hoperand _ _ rfl hnode
      | @call function argument hleaf hfunction hargument =>
        obtain ⟨segment, others, rfl, hread, -⟩ := exists_cons_of_readSiblings hsiblings
        have hbare : isArgument function = false := by
          cases hkind : function.kind <;> simp_all [isArgument, Kind.isFunction, Kind.isNumeral]
        obtain ⟨token, rfl, rfl⟩ := token_of_readSegment hread hbare
        cases hspan
        apply Kind.opensExpression_of_isArithmetic
        have hname : first.kind.isFunction = true := hfunction
        simp [Kind.isArithmetic, hname]

variable (derivable : ∀ span node, (∀ t ∈ span, t.kind.isWord = true) →
    (readExpressionWithin options room span).result = .ok node →
    ∃ expression : Expression, expression.tokens = span ∧ expression.depth < room)
  (hwords : ∀ s ∈ segments, ∀ t ∈ s.tokens, t.kind.isWord = true)
  (hformed : ∀ s ∈ segments, s.WellFormed)

include derivable

/-- A piece that is read as an operand is one. -/
theorem operand_of_readSegment (hword : ∀ t ∈ segment.tokens, t.kind.isWord = true)
    (hsegment : segment.WellFormed)
    (h : (readSegment (readExpressionWithin options room) segment).result = .ok node)
    (hnode : isOperand node = true) :
    ∃ operand : Operand, operand.tokens = segment.tokens ∧ operand.depth < room + 1 := by
  cases segment with
  | token token =>
    cases h
    -- The leaf of a phrase would be an operand as well, but no word has such a kind.
    have hkind := hword token (List.mem_singleton_self _)
    have hnumeral : token.kind.isNumeral = true := by
      cases hk : token.kind <;>
        simp_all [isOperand, Node.leaf, Node.branch, Node.isLeaf, Node.kind, Kind.isWord,
          Kind.isScanned]
    exact ⟨.numeral token hnumeral, rfl, Nat.succ_pos _⟩
  | group opening inner closing =>
    have hinner : ∀ t ∈ inner, t.kind.isWord = true := by
      intro t ht
      exact hword t (List.mem_append_left _ (List.mem_cons_of_mem _ ht))
    obtain ⟨expression, rfl, hdepth⟩ := derivable inner node hinner h
    exact ⟨.group opening expression closing hsegment.1 hsegment.2.1, rfl,
      Nat.succ_lt_succ hdepth⟩

include hwords hformed

/-- Pieces that are read as a chain of operands are one. -/
theorem chain_of_readSiblings (hchain : Chained siblings)
    (h : (readSiblings (readExpressionWithin options room) segments).result = .ok siblings) :
    ∃ first links, (Expression.chain first links).tokens = segments.flatMap Segment.tokens ∧
      (Expression.chain first links).depth < room + 1 := by
  induction hchain generalizing segments with
  | last hnode =>
    obtain ⟨segment, rest, rfl, hread, hrest⟩ := exists_cons_of_readSiblings h
    obtain rfl := eq_nil_of_readSiblings hrest
    obtain ⟨first, htokens, hdepth⟩ := operand_of_readSegment derivable
      (hwords _ (List.mem_cons_self ..)) (hformed _ (List.mem_cons_self ..)) hread hnode
    refine ⟨first, .nil, ?_, ?_⟩
    · simp [Expression.tokens, Links.tokens, htokens]
    · rwa [Expression.depth, Links.depth, Nat.max_zero]
  | @more node operator later hnode hleaf hoperator _ ih =>
    obtain ⟨segment, behind, rfl, hread, hbehind⟩ := exists_cons_of_readSiblings h
    obtain ⟨sign, rest, rfl, hsign, hrest⟩ := exists_cons_of_readSiblings hbehind
    have hbare : isArgument operator = false := by
      cases hkind : operator.kind <;> simp_all [isArgument, Kind.isOperator, Kind.isNumeral]
    obtain ⟨token, rfl, rfl⟩ := token_of_readSegment hsign hbare
    obtain ⟨first, htokens, hdepth⟩ := operand_of_readSegment derivable
      (hwords _ (List.mem_cons_self ..)) (hformed _ (List.mem_cons_self ..)) hread hnode
    have hlater : ∀ s ∈ rest, s ∈ segment :: Segment.token token :: rest := fun s hs =>
      List.mem_cons_of_mem _ (List.mem_cons_of_mem _ hs)
    obtain ⟨second, links, htail, htailDepth⟩ := ih (fun s hs => hwords s (hlater s hs))
      (fun s hs => hformed s (hlater s hs)) hrest
    refine ⟨first, .cons token second links hoperator, ?_, ?_⟩
    · rw [List.flatMap_cons, List.flatMap_cons, ← htail, ← htokens]
      simp [Expression.tokens, Links.tokens]
    · -- The depth of a chain is a maximum, and the tail has taken up one operand of it.
      simp only [Expression.depth, Links.depth] at htailDepth ⊢
      omega

end Pieces

/-- A span of words that is read has a derivation whose depth leaves room. -/
theorem exists_expression_of_read (hwords : ∀ t ∈ span, t.kind.isWord = true)
    (h : (readExpressionWithin options room span).result = .ok node) :
    ∃ expression : Expression, expression.tokens = span ∧ expression.depth < room := by
  -- The inside of a group is read with less room, so the induction is on the room.
  induction room generalizing span node with
  | zero => cases span <;> cases h
  | succ room ih =>
    rcases exists_siblings_of_read h with
      ⟨token, rfl, hnumeral, -⟩ | ⟨first, segments, siblings, hsegments, hsiblings, hfold⟩
    · exact ⟨.chain (.numeral token hnumeral) .nil, rfl, Nat.succ_pos _⟩
    · obtain ⟨hformed, rfl⟩ := splitGroups_eq_ok_iff.1 hsegments
      have hpieces : ∀ s ∈ segments, ∀ t ∈ s.tokens, t.kind.isWord = true := by
        intro s hs t ht
        exact hwords t (List.mem_flatMap.2 ⟨s, hs, ht⟩)
      have derivable := fun span node hspan hread => @ih span node hspan hread
      cases foldable_of_foldSiblings hfold with
      | chain hchain =>
        obtain ⟨head, links, htokens, hdepth⟩ :=
          chain_of_readSiblings derivable hpieces hformed hchain hsiblings
        exact ⟨.chain head links, htokens, hdepth⟩
      | @call function argument hleaf hfunction hargument =>
        obtain ⟨segment, rest, rfl, hread, hrest⟩ := exists_cons_of_readSiblings hsiblings
        obtain ⟨last, rest, rfl, hlast, hrest⟩ := exists_cons_of_readSiblings hrest
        obtain rfl := eq_nil_of_readSiblings hrest
        have hbare : isArgument function = false := by
          cases hkind : function.kind <;> simp_all [isArgument, Kind.isFunction, Kind.isNumeral]
        obtain ⟨token, rfl, rfl⟩ := token_of_readSegment hread hbare
        obtain ⟨operand, htokens, hdepth⟩ := operand_of_readSegment derivable
          (hpieces last (by simp)) (hformed last (by simp)) hlast
          (isOperand_of_isArgument hargument)
        refine ⟨.call token operand hfunction, ?_, hdepth⟩
        simp [Expression.tokens, htokens]

/-- What is read is the tree of a derivation. -/
theorem exists_tree_of_read (hwords : ∀ t ∈ span, t.kind.isWord = true)
    (h : (readExpression options span).result = .ok node) :
    ∃ expression : Expression, expression.tokens = span ∧
      node = expression.tree options.precedence := by
  obtain ⟨expression, rfl, hdepth⟩ := exists_expression_of_read hwords h
  have hread := (expression.read options (maxNesting + 1)).fits hdepth
  exact ⟨expression, rfl, Except.ok.inj (h.symm.trans hread)⟩

end CalcLang
