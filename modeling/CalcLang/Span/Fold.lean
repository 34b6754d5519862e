import CalcLang.Error
import CalcLang.Log
import CalcLang.Options
import CalcLang.Tree

/-!
# Folding

An expression without parentheses is a row of sibling nodes: operands, bare operators and bare
function names.  It becomes one tree by folding parts of the row.

* `foldTier`: the leftmost bare operator of a tier is folded with its two neighbours into one node,
  again and again until no bare operator of the tier is left.
* `applyFunctions`: every bare function name is joined with the operand to its right.
-/

namespace CalcLang

/-- A node that an operator may take as an operand: a number or a variable, an expression, or a node
    that has been folded already. -/
def isOperand (node : Node) : Bool :=
  !node.isLeaf || node.kind == .phrase .expr || node.kind.isNumeral

/-! ### Operators -/

/-- A bare operator of a tier. -/
def isBareOperator (tier : List Operator) (node : Node) : Bool :=
  node.isLeaf &&
    match node.kind with
    | .operator operator => tier.contains operator
    | _ => false

/-- The first bare operator of a tier in a row, between the nodes before and after it. -/
def firstOperator? (tier : List Operator) : List Node → Option (List Node × Node × List Node)
  | [] => none
  | node :: rest =>
    if isBareOperator tier node then
      some ([], node, rest)
    else
      (firstOperator? tier rest).map fun (before, operator, after) =>
        (node :: before, operator, after)

/-- Folds an operator with its two neighbours. -/
def foldAt (debug : Bool) (before : List Node) (operator : Node) (after : List Node) :
    Logged ParseError (List Node) :=
  match before.getLast?, after with
  | some left, right :: rest =>
    if !isOperand left then
      .fail (.pinned left.token (.invalidOperand operator.kind))
    else if !isOperand right then
      .fail (.pinned right.token (.invalidOperand operator.kind))
    else do
      .noteIf debug .debug
        ("fold " ++ operator.kind.name ++ " on line " ++ toString operator.line)
      pure (before.dropLast ++ Node.branch operator.token [left, right] :: rest)
  | _, _ => .fail (.pinned operator.token (.missingOperand operator.kind))

/-- Folds the leftmost operator of a tier at most a given number of times. -/
def foldRounds (debug : Bool) (tier : List Operator) :
    Nat → List Node → Logged ParseError (List Node)
  | 0, siblings => pure siblings
  | rounds + 1, siblings =>
    match firstOperator? tier siblings with
    | none => pure siblings
    | some (before, operator, after) => do
      let folded ← foldAt debug before operator after
      foldRounds debug tier rounds folded

/-- Folds every operator of a tier, the leftmost one first.  Each round leaves a shorter row, so
    there are fewer rounds than siblings. -/
def foldTier (debug : Bool) (tier : List Operator) (siblings : List Node) :
    Logged ParseError (List Node) :=
  foldRounds debug tier siblings.length siblings

theorem append_of_firstOperator? {tier : List Operator} {siblings before after : List Node}
    {operator : Node} (h : firstOperator? tier siblings = some (before, operator, after)) :
    siblings = before ++ operator :: after := by
  induction siblings generalizing before with
  | nil => simp [firstOperator?] at h
  | cons node rest ih =>
    rw [firstOperator?] at h
    split at h
    · cases h
      rfl
    · obtain ⟨⟨b, o, a⟩, hr, he⟩ := Option.map_eq_some_iff.1 h
      cases he
      rw [ih hr, List.cons_append]

theorem length_of_foldAt {debug : Bool} {before after folded : List Node} {operator : Node}
    (h : (foldAt debug before operator after).result = .ok folded) :
    folded.length + 2 = (before ++ operator :: after).length := by
  unfold foldAt at h
  split at h
  · next left right rest hleft =>
    have positive : before ≠ [] := by
      rintro rfl
      simp at hleft
    have := List.length_pos_iff.2 positive
    split at h
    · simp at h
    · split at h
      · simp at h
      · simp only [Logged.result_bind, Logged.result_noteIf, Logged.result_pure, Except.bind,
          Except.ok.injEq] at h
        simp only [← h, List.length_append, List.length_dropLast, List.length_cons]
        omega
  · simp at h

/-- Any bound that is no less than the number of siblings will do. -/
theorem foldRounds_congr (debug : Bool) (tier : List Operator) {rounds rounds' : Nat}
    {siblings : List Node} (h : siblings.length ≤ rounds) (h' : siblings.length ≤ rounds') :
    foldRounds debug tier rounds siblings = foldRounds debug tier rounds' siblings := by
  induction rounds generalizing rounds' siblings with
  | zero =>
    obtain rfl := List.length_eq_zero_iff.1 (Nat.le_zero.1 h)
    cases rounds' <;> rfl
  | succ rounds ih =>
    cases rounds' with
    | zero =>
      obtain rfl := List.length_eq_zero_iff.1 (Nat.le_zero.1 h')
      rfl
    | succ rounds' =>
      simp only [foldRounds]
      split
      · rfl
      · next before operator after hf =>
        refine Logged.bind_congr_ok fun folded hr => ?_
        have shorter := length_of_foldAt hr
        rw [← append_of_firstOperator? hf] at shorter
        exact ih (by omega) (by omega)

/-- One operator is folded after another, the leftmost one first. -/
theorem foldTier_eq (debug : Bool) (tier : List Operator) (siblings : List Node) :
    foldTier debug tier siblings =
      match firstOperator? tier siblings with
      | none => pure siblings
      | some (before, operator, after) =>
        foldAt debug before operator after >>= foldTier debug tier := by
  have enough : foldTier debug tier siblings = foldRounds debug tier (siblings.length + 1) siblings :=
    foldRounds_congr debug tier (Nat.le_refl _) (Nat.le_succ _)
  rw [enough, foldRounds]
  split
  · rfl
  · next before operator after hf =>
    refine Logged.bind_congr_ok fun folded hr => ?_
    have shorter := length_of_foldAt hr
    rw [← append_of_firstOperator? hf] at shorter
    exact foldRounds_congr debug tier (by omega) (Nat.le_refl _)

/-! ### Functions -/

/-- A node that a function may take as its argument: a number, a variable or an expression in
    parentheses. -/
def isArgument (node : Node) : Bool :=
  node.kind == .phrase .expr || (node.isLeaf && node.kind.isNumeral)

/-- Joins every bare function name with the node to its right. -/
def applyFunctions (debug : Bool) : List Node → Logged ParseError (List Node)
  | [] => pure []
  | [node] =>
    if node.isLeaf && node.kind.isFunction then
      .fail (.pinned node.token (.missingArgument node.kind))
    else
      pure [node]
  | node :: next :: rest =>
    if node.isLeaf && node.kind.isFunction then
      if isArgument next then do
        .noteIf debug .debug ("call " ++ node.kind.name ++ " on line " ++ toString node.line)
        let later ← applyFunctions debug rest
        pure (Node.branch node.token [next] :: later)
      else
        .fail (.pinned next.token (.invalidArgument node.kind))
    else do
      let later ← applyFunctions debug (next :: rest)
      pure (node :: later)

end CalcLang
