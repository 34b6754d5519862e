import CalcLang.Span.Expression

/-! # Relabelling tokens

    Whether a span is an expression and what its tree looks like depends on the kinds of its tokens.
    Their texts and lines are only passed on, to the nodes and to the errors:

    * `Relabelling`: other tokens of the same kinds, and what becomes of the errors.
    * `Node.map`: a tree with other tokens.
    * `Relabelling.relabels_readExpression`: reading a relabelled span gives the relabelled tree, or
      the relabelled error. -/

namespace CalcLang

/-! ### Trees -/

mutual

/-- The same tree with other tokens. -/
def Node.map (f : Token → Token) : Node → Node
  | ⟨token, name, children⟩ => ⟨f token, name, mapList f children⟩

/-- The same row of trees with other tokens. -/
def Node.mapList (f : Token → Token) : List Node → List Node
  | [] => []
  | node :: rest => node.map f :: mapList f rest

end

namespace Node

variable {f : Token → Token} {node : Node}

theorem mapList_eq (f : Token → Token) (nodes : List Node) : mapList f nodes = nodes.map (map f) := by
  induction nodes with
  | nil => rfl
  | cons node rest ih => rw [mapList, ih, List.map_cons]

@[simp] theorem map_branch (token : Token) (children : List Node) :
    (branch token children).map f = branch (f token) (children.map (map f)) := by
  rw [branch, map, mapList_eq, branch]

@[simp] theorem map_leaf (token : Token) : (leaf token).map f = leaf (f token) := map_branch token []

@[simp] theorem token_map (node : Node) : (node.map f).token = f node.token := by
  cases node
  rfl

@[simp] theorem isLeaf_map (node : Node) : (node.map f).isLeaf = node.isLeaf := by
  obtain ⟨token, name, children⟩ := node
  cases children <;> rfl

end Node

/-! ### Relabellings -/

/-- Other tokens of the same kinds, and the errors that come of them.  Only the error about an orphan
    has more of a span in it than the token it is pinned to. -/
structure Relabelling where
  token : Token → Token
  error : ParseError → ParseError
  kind_token (t : Token) : (token t).kind = t.kind
  token_phrase (phrase : Phrase) (t : Token) :
    token (.plain (.phrase phrase) t.line) = .plain (.phrase phrase) (token t).line
  error_nowhere (fault : Fault) (h : ∀ text, fault ≠ .orphan text) :
    error (.nowhere fault) = .nowhere fault
  error_pinned (t : Token) (fault : Fault) (h : ∀ text, fault ≠ .orphan text) :
    error (.pinned t fault) = .pinned (token t) fault
  error_orphan (t : Token) (span : List Token) :
    error (.pinned t (.orphan (quoteSpan span))) =
      .pinned (token t) (.orphan (quoteSpan (span.map token)))

namespace Relabelling

variable {α β γ δ : Type} {R : Relabelling} {debug : Bool} {tier : List Operator}

/-- The result of a relabelled computation. -/
def result (R : Relabelling) (f : α → β) : Except ParseError α → Except ParseError β
  | .ok a => .ok (f a)
  | .error e => .error (R.error e)

/-- Two computations of which the second one is the first one relabelled.  What they log is another
    matter. -/
def Relabels (R : Relabelling) (f : α → β) (x : Logged ParseError α) (x' : Logged ParseError β) :
    Prop :=
  x'.result = R.result f x.result

/-- A tree with other tokens. -/
def node (R : Relabelling) : Node → Node := .map R.token

theorem relabels_pure {f : α → β} (a : α) : R.Relabels f (pure a) (pure (f a)) := rfl

theorem relabels_fail {f : α → β} {e e' : ParseError} (h : e' = R.error e) :
    R.Relabels f (.fail e) (.fail e') := by
  rw [h]
  rfl

theorem relabels_pinned {f : α → β} (t : Token) (fault : Fault) (h : ∀ text, fault ≠ .orphan text) :
    R.Relabels f (.fail (.pinned t fault)) (.fail (.pinned (R.token t) fault)) :=
  relabels_fail (R.error_pinned t fault h).symm

theorem relabels_ofExcept {f : α → β} {x : Except ParseError α} {x' : Except ParseError β}
    (h : x' = R.result f x) : R.Relabels f (.ofExcept x) (.ofExcept x') := h

theorem Relabels.bind {f : α → β} {g : γ → δ} {x : Logged ParseError α} {x' : Logged ParseError β}
    {k : α → Logged ParseError γ} {k' : β → Logged ParseError δ} (h : R.Relabels f x x')
    (hnext : ∀ a, R.Relabels g (k a) (k' (f a))) : R.Relabels g (x >>= k) (x' >>= k') := by
  unfold Relabels at h ⊢
  rw [Logged.result_bind, Logged.result_bind, h]
  cases x.result with
  | error e => rfl
  | ok a => exact hnext a

/-- What is logged in between does not matter. -/
theorem relabels_noteIf {f : α → β} {x : Logged ParseError α} {x' : Logged ParseError β}
    (enabled : Bool) (text text' : String) (h : R.Relabels f x x') :
    R.Relabels f (.noteIf enabled .debug text >>= fun _ => x)
      (.noteIf enabled .debug text' >>= fun _ => x') := by
  unfold Relabels
  rw [Logged.result_bind, Logged.result_bind, Logged.result_noteIf, Logged.result_noteIf]
  exact h

/-! ### Groups -/

/-- A piece of a span with other tokens. -/
def segment (R : Relabelling) : Segment → Segment
  | .token t => .token (R.token t)
  | .group opening inner closing =>
    .group (R.token opening) (inner.map R.token) (R.token closing)

/-- A group that is still being read, with other tokens. -/
def openGroup (R : Relabelling) (group : OpenGroup) : OpenGroup :=
  ⟨R.token group.opening, group.inner.map R.token, group.depth⟩

theorem result_bind {f : α → β} {g : γ → δ} {x : Except ParseError α}
    {k : α → Except ParseError γ} {k' : β → Except ParseError δ}
    (h : ∀ a, k' (f a) = R.result g (k a)) :
    (R.result f x >>= k') = R.result g (x >>= k) := by
  cases x with
  | error e => rfl
  | ok a => exact h a

theorem splitFrom_map (pending : Option OpenGroup) (span : List Token) :
    splitFrom (pending.map R.openGroup) (span.map R.token) =
      R.result (List.map R.segment) (splitFrom pending span) := by
  induction span generalizing pending with
  | nil =>
    cases pending with
    | none => rfl
    | some group => exact congrArg _ (R.error_pinned group.opening .unclosedParen nofun).symm
  | cons token rest ih =>
    cases pending with
    | none =>
      rw [List.map_cons, Option.map_none, splitFrom, splitFrom, R.kind_token]
      split
      · exact ih (some ⟨token, [], 0⟩)
      · exact congrArg _ (R.error_pinned token .unopenedParen nofun).symm
      · have hlater := ih none
        rw [Option.map_none] at hlater
        rw [hlater]
        exact result_bind fun later => rfl
    | some group =>
      obtain ⟨opening, inner, depth⟩ := group
      have hinside (depth : Nat) := ih (some ⟨opening, token :: inner, depth⟩)
      simp only [List.map_cons, Option.map_some, openGroup, splitFrom, R.kind_token] at hinside ⊢
      split
      · exact hinside _
      · exact hinside _
      · rw [List.isEmpty_map]
        split
        · exact congrArg _ (R.error_pinned opening .emptyParens nofun).symm
        · have hlater := ih none
          rw [Option.map_none] at hlater
          rw [hlater]
          exact result_bind fun later => by simp [result, segment, pure, Except.pure]
      · exact hinside _

/-- The pieces of a relabelled span. -/
theorem splitGroups_map (span : List Token) :
    splitGroups (span.map R.token) = R.result (List.map R.segment) (splitGroups span) :=
  splitFrom_map none span

/-! ### Rows of siblings -/

/-- A reader that gives the relabelled tree, or the relabelled error, of a relabelled span. -/
def Reads (R : Relabelling) (inner inner' : List Token → Logged ParseError Node) : Prop :=
  ∀ span, R.Relabels R.node (inner span) (inner' (span.map R.token))

variable {inner inner' : List Token → Logged ParseError Node}

theorem token_node (node : Node) : (R.node node).token = R.token node.token :=
  Node.token_map node

theorem kind_node (node : Node) : (R.node node).kind = node.kind := by
  unfold Node.kind
  rw [token_node, R.kind_token]

theorem isLeaf_node (node : Node) : (R.node node).isLeaf = node.isLeaf :=
  Node.isLeaf_map node

theorem node_branch (t : Token) (children : List Node) :
    R.node (.branch t children) = .branch (R.token t) (children.map R.node) :=
  Node.map_branch t children

theorem node_leaf (t : Token) : R.node (.leaf t) = .leaf (R.token t) :=
  Node.map_leaf t

theorem node_phrase (phrase : Phrase) (t : Token) (children : List Node) :
    R.node (.phrase phrase t.line children) =
      .phrase phrase (R.token t).line (children.map R.node) := by
  rw [Node.phrase, node_branch, R.token_phrase]
  rfl

theorem relabels_readSiblings (h : R.Reads inner inner') (segments : List Segment) :
    R.Relabels (List.map R.node) (readSiblings inner segments)
      (readSiblings inner' (segments.map R.segment)) := by
  induction segments with
  | nil => rfl
  | cons first rest ih =>
    cases first with
    | token t =>
      refine ih.bind fun later => ?_
      rw [← node_leaf]
      exact relabels_pure (Node.leaf t :: later)
    | group opening tokens closing =>
      exact (h tokens).bind fun node => ih.bind fun later => relabels_pure _

theorem isOperand_node (node : Node) : isOperand (R.node node) = isOperand node := by
  unfold isOperand
  rw [isLeaf_node, kind_node]

theorem isArgument_node (node : Node) : isArgument (R.node node) = isArgument node := by
  unfold isArgument
  rw [isLeaf_node, kind_node]

theorem isBareOperator_node (node : Node) :
    isBareOperator tier (R.node node) = isBareOperator tier node := by
  unfold isBareOperator
  rw [isLeaf_node, kind_node]

theorem firstOperator?_map (tier : List Operator) (siblings : List Node) :
    firstOperator? tier (siblings.map R.node) = (firstOperator? tier siblings).map
      fun (before, operator, after) =>
        (before.map R.node, R.node operator, after.map R.node) := by
  induction siblings with
  | nil => rfl
  | cons node rest ih =>
    rw [List.map_cons, firstOperator?, firstOperator?, isBareOperator_node, ih]
    split
    · rfl
    · rw [Option.map_map, Option.map_map]
      rfl

theorem relabels_foldAt (before : List Node) (operator : Node) (after : List Node) :
    R.Relabels (List.map R.node) (foldAt debug before operator after)
      (foldAt debug (before.map R.node) (R.node operator) (after.map R.node)) := by
  unfold foldAt
  rw [List.getLast?_map]
  cases before.getLast? with
  | none =>
    rw [token_node, kind_node]
    exact relabels_pinned _ _ nofun
  | some left =>
    cases after with
    | nil =>
      rw [token_node, kind_node]
      exact relabels_pinned _ _ nofun
    | cons right rest =>
      simp only [List.map_cons, Option.map_some, isOperand_node, kind_node, token_node]
      split
      · exact relabels_pinned _ _ nofun
      · split
        · exact relabels_pinned _ _ nofun
        · refine relabels_noteIf _ _ _ ?_
          have hfolded := relabels_pure (R := R) (f := List.map R.node)
            (before.dropLast ++ Node.branch operator.token [left, right] :: rest)
          rw [List.map_append, List.map_cons, node_branch, List.map_dropLast] at hfolded
          exact hfolded

theorem relabels_foldRounds (rounds : Nat) (siblings : List Node) :
    R.Relabels (List.map R.node) (foldRounds debug tier rounds siblings)
      (foldRounds debug tier rounds (siblings.map R.node)) := by
  induction rounds generalizing siblings with
  | zero => exact relabels_pure siblings
  | succ rounds ih =>
    rw [foldRounds, foldRounds, firstOperator?_map]
    cases firstOperator? tier siblings with
    | none => exact relabels_pure siblings
    | some found => exact (relabels_foldAt ..).bind ih

theorem relabels_foldTier (tier : List Operator) (siblings : List Node) :
    R.Relabels (List.map R.node) (foldTier debug tier siblings)
      (foldTier debug tier (siblings.map R.node)) := by
  unfold foldTier
  rw [List.length_map]
  exact relabels_foldRounds _ siblings

theorem relabels_applyFunctions (siblings : List Node) :
    R.Relabels (List.map R.node) (applyFunctions debug siblings)
      (applyFunctions debug (siblings.map R.node)) := by
  fun_induction applyFunctions debug siblings with
  | case1 => exact relabels_pure []
  | case2 node hfunction =>
    rw [List.map_singleton, applyFunctions, isLeaf_node, kind_node, token_node, if_pos hfunction]
    exact relabels_pinned _ _ nofun
  | case3 node hfunction =>
    rw [List.map_singleton, applyFunctions, isLeaf_node, kind_node, if_neg hfunction]
    exact relabels_pure [node]
  | case4 node next rest hfunction hargument ih =>
    rw [List.map_cons, List.map_cons, applyFunctions, isLeaf_node, kind_node, if_pos hfunction,
      isArgument_node, if_pos hargument]
    refine relabels_noteIf _ _ _ (ih.bind fun later => ?_)
    have hcall := relabels_pure (R := R) (f := List.map R.node)
      (Node.branch node.token [next] :: later)
    rw [List.map_cons, node_branch] at hcall
    rw [token_node]
    exact hcall
  | case5 node next rest hfunction hargument =>
    rw [List.map_cons, List.map_cons, applyFunctions, isLeaf_node, kind_node, if_pos hfunction,
      isArgument_node, if_neg hargument, token_node]
    exact relabels_pinned _ _ nofun
  | case6 node next rest hfunction ih =>
    rw [List.map_cons, List.map_cons, applyFunctions, isLeaf_node, kind_node, if_neg hfunction]
    exact ih.bind fun later => relabels_pure (node :: later)

theorem closeExpression_map (span : List Token) (first : Token) (siblings : List Node) :
    closeExpression (span.map R.token) (R.token first) (siblings.map R.node) =
      R.result R.node (closeExpression span first siblings) := by
  cases siblings with
  | nil => exact congrArg _ (R.error_pinned first .expectedExpression nofun).symm
  | cons node rest =>
    cases rest with
    | nil =>
      simp only [List.map_cons, List.map_nil, closeExpression, isOperand_node, kind_node, token_node]
      split
      · exact congrArg _ (R.error_pinned node.token .notAnOperand nofun).symm
      · split
        · rfl
        · exact congrArg _ (R.node_phrase .expr first [node]).symm
    | cons second rest =>
      have hstray : ((second :: rest).map R.node).find? (fun n => n.isLeaf && n.kind.isNumeral) =
          ((second :: rest).find? fun n => n.isLeaf && n.kind.isNumeral).map R.node := by
        rw [List.find?_map]
        simp only [Function.comp_def, isLeaf_node, kind_node]
      simp only [List.map_cons, closeExpression] at hstray ⊢
      rw [hstray, Option.getD_map, token_node]
      exact congrArg _ (R.error_orphan _ span).symm

theorem relabels_readLevel {options : ReadOptions} (h : R.Reads inner inner') (first : Token)
    (rest : List Token) :
    R.Relabels R.node (readLevel options inner first rest)
      (readLevel options inner' (R.token first) (rest.map R.token)) := by
  have hfind : (R.token first :: rest.map R.token).find? (·.kind.endsLine) =
      ((first :: rest).find? (·.kind.endsLine)).map R.token := by
    rw [← List.map_cons, List.find?_map]
    simp only [Function.comp_def, R.kind_token]
  unfold readLevel
  simp only [List.isEmpty_map, R.kind_token, hfind]
  split
  · rw [← node_leaf]
    exact relabels_pure _
  · cases (first :: rest).find? (·.kind.endsLine) with
    | some token => exact relabels_pinned _ _ nofun
    | none =>
      refine relabels_noteIf _ _ _ ?_
      refine (relabels_ofExcept (splitGroups_map (first :: rest))).bind fun segments => ?_
      refine (relabels_readSiblings h segments).bind fun siblings => ?_
      refine (relabels_foldTier _ siblings).bind fun once => ?_
      refine (relabels_foldTier _ once).bind fun twice => ?_
      refine (relabels_applyFunctions twice).bind fun applied => ?_
      exact relabels_ofExcept (closeExpression_map (first :: rest) first applied)

theorem relabels_readExpressionWithin (options : ReadOptions) (room : Nat) :
    R.Reads (readExpressionWithin options room) (readExpressionWithin options room) := by
  induction room with
  | zero =>
    intro span
    cases span with
    | nil => exact relabels_fail (R.error_nowhere .expectedExpression nofun).symm
    | cons first rest => exact relabels_pinned first .nestedTooDeeply nofun
  | succ room ih =>
    intro span
    cases span with
    | nil => exact relabels_fail (R.error_nowhere .expectedExpression nofun).symm
    | cons first rest => exact relabels_readLevel ih first rest

/-- What is read from a relabelled span is the relabelled tree, or the relabelled error. -/
theorem relabels_readExpression (options : ReadOptions) :
    R.Reads (readExpression options) (readExpression options) :=
  relabels_readExpressionWithin options _

end Relabelling

end CalcLang
