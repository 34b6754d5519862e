import CalcLang.Proofs.Expression.Language

/-! # Flat trees

    A tree of an expression groups its operators.  Without the grouping, the operators stand in one
    row with their operands, in the order of the text:

    * `Node.flat`: a tree with such a row in each of its expressions.
    * `Precedence.row_tree`: the row of a tree does not depend on the precedence.
    * `Node.isUnmixed`: in a flat tree, no row mixes operators of both tiers.
    * `Precedence.tree_eq_fold`: without such a mixture, neither does the tree.
    * `Expression.isUnmixed_tree`: there is none iff no level of parentheses of the expression has
      operators of both tiers. -/

namespace CalcLang

/-! ### Flat trees -/

namespace Node

mutual

/-- What stands for a node in a row.  Inside an expression, an operator stands between what stands
    for its operands; any other node stands for itself, with a row of its own. -/
def row (inside : Bool) : Node → List Node
  | ⟨token, name, [left, right]⟩ =>
    if inside && token.kind.isOperator then
      left.row true ++ ⟨token, name, []⟩ :: right.row true
    else
      [⟨token, name, rows (token.kind == .phrase .expr) [left, right]⟩]
  | ⟨token, name, children⟩ => [⟨token, name, rows (token.kind == .phrase .expr) children⟩]

/-- What stands for some nodes, one after the other. -/
def rows (inside : Bool) : List Node → List Node
  | [] => []
  | node :: rest => node.row inside ++ rows inside rest

end

/-- A tree in which the operators of each expression stand in one row with their operands. -/
def flat (node : Node) : Node :=
  ⟨node.token, node.name, rows (node.kind == .phrase .expr) node.children⟩

/-- Some tokens have operators of both tiers among them. -/
def mixesTiers (tokens : List Token) : Bool :=
  tokens.any (·.isIn Precedence.additive) && tokens.any (·.isIn Precedence.multiplicative)

mutual

/-- In no expression of a flat tree, operators of both tiers stand in one row. -/
def isUnmixed : Node → Bool
  | ⟨token, _, children⟩ =>
    !(token.kind == .phrase .expr && mixesTiers (children.map Node.token)) && areUnmixed children

/-- This is so for each tree of a row. -/
def areUnmixed : List Node → Bool
  | [] => true
  | node :: rest => node.isUnmixed && areUnmixed rest

end

variable {inside : Bool} {token : Token} {name : Option String} {node left right : Node}
  {children nodes more : List Node}

theorem row_operator (h : token.kind.isOperator = true) :
    row true ⟨token, name, [left, right]⟩ =
      left.row true ++ ⟨token, name, []⟩ :: right.row true := by
  simp [row, h]

/-- A node stands for itself unless it is an operator with two operands inside an expression. -/
theorem row_eq_flat (h : inside = false ∨ node.kind.isOperator = false ∨ node.children.length ≠ 2) :
    node.row inside = [node.flat] := by
  obtain ⟨token, name, children⟩ := node
  match children with
  | [] | [_] | _ :: _ :: _ :: _ => rfl
  | [left, right] =>
    have hcond : ¬(inside && token.kind.isOperator) = true := by
      rcases h with h | h | h
      · simp [h]
      · have hkind : token.kind.isOperator = false := h
        simp [hkind]
      · exact absurd rfl h
    rw [row, if_neg hcond]
    rfl

theorem row_branch (h : inside = false ∨ token.kind.isOperator = false ∨ nodes.length ≠ 2) :
    (branch token nodes).row inside = [⟨token, none, rows (token.kind == .phrase .expr) nodes⟩] :=
  row_eq_flat h

/-- An expression stands for itself, with the row of what is in it. -/
theorem row_phrase (line : Nat) (node : Node) (inside : Bool) :
    (phrase .expr line [node]).row inside =
      [⟨.plain (.phrase .expr) line, none, node.row true⟩] := by
  refine (row_branch (.inr (.inl rfl))).trans ?_
  show [Node.mk _ none (node.row true ++ [])] = _
  rw [List.append_nil]

/-- The difference of `1` and `2 * 3` is one row. -/
example : (Node.phrase .expr 1 [.branch ⟨.operator .minus, none, 1⟩
      [.leaf ⟨.literal .int, some "1", 1⟩, .branch ⟨.operator .times, none, 1⟩
        [.leaf ⟨.literal .int, some "2", 1⟩, .leaf ⟨.literal .int, some "3", 1⟩]]]).flat =
    .phrase .expr 1 [.leaf ⟨.literal .int, some "1", 1⟩, .leaf ⟨.operator .minus, none, 1⟩,
      .leaf ⟨.literal .int, some "2", 1⟩, .leaf ⟨.operator .times, none, 1⟩,
      .leaf ⟨.literal .int, some "3", 1⟩] :=
  rfl

theorem rows_false (nodes : List Node) : rows false nodes = nodes.map flat := by
  induction nodes with
  | nil => rfl
  | cons node rest ih =>
    rw [rows, row_eq_flat (.inl rfl), ih]
    rfl

@[simp] theorem areUnmixed_append :
    areUnmixed (nodes ++ more) = (areUnmixed nodes && areUnmixed more) := by
  induction nodes with
  | nil => rfl
  | cons node rest ih => rw [List.cons_append, areUnmixed, areUnmixed, ih, Bool.and_assoc]

theorem areUnmixed_singleton (node : Node) : areUnmixed [node] = node.isUnmixed :=
  Bool.and_true _

theorem isUnmixed_expr (line : Nat) (nodes : List Node) :
    isUnmixed ⟨.plain (.phrase .expr) line, none, nodes⟩ =
      (!mixesTiers (nodes.map Node.token) && areUnmixed nodes) :=
  rfl

/-- Fewer tokens mix less. -/
theorem mixesTiers_mono {tokens others : List Token} (hsub : tokens ⊆ others)
    (h : mixesTiers others = false) : mixesTiers tokens = false := by
  rw [Bool.eq_false_iff] at h ⊢
  intro hmix
  apply h
  simp only [mixesTiers, Bool.and_eq_true, List.any_eq_true] at hmix ⊢
  obtain ⟨⟨t, ht, hsum⟩, u, hu, hproduct⟩ := hmix
  exact ⟨⟨t, hsub ht, hsum⟩, u, hsub hu, hproduct⟩

end Node

/-! ### Runs of operands -/

open Node

variable {first : Node} {links : List (Token × Node)} {tier : List Operator}
  {precedence : Precedence} {token : Token} {line : Nat}

namespace Run

/-- What stands for a run inside an expression. -/
def row (run : Run) : List Node :=
  run.first.row true ++ run.links.flatMap fun link => ⟨link.1, none, []⟩ :: link.2.row true

/-- An operator joins what stands for its operands. -/
theorem row_join {operator : Token} {right : Node} (h : operator.kind.isOperator = true) :
    row ⟨.branch operator [first, right], links⟩ = row ⟨first, (operator, right) :: links⟩ := by
  unfold row
  simp only [Node.branch, row_operator h, List.flatMap_cons, List.append_assoc, List.cons_append]

theorem row_fold {run : Run} (h : ∀ link ∈ run.links, link.1.kind.isOperator = true) :
    run.fold.row true = run.row := by
  -- The first operand takes up one link after the other, and what stands for the run stays.
  obtain ⟨first, links⟩ := run
  induction links generalizing first with
  | nil => exact (List.append_nil _).symm
  | cons link links ih =>
    obtain ⟨hlink, hlinks⟩ := List.forall_mem_cons.1 h
    rw [← row_join hlink]
    exact ih (.branch link.1 [first, link.2]) hlinks

theorem row_ofRuns_cut (tier : List Operator) (h : ∀ link ∈ links, link.1.kind.isOperator = true) :
    (ofRuns (cut tier first links)).row = row ⟨first, links⟩ := by
  induction links generalizing first with
  | nil => rfl
  | cons link links ih =>
    obtain ⟨operator, right⟩ := link
    obtain ⟨hlink, hlinks⟩ := List.forall_mem_cons.1 h
    cases hcut : operator.isIn tier with
    | false => rw [ofRuns_cut_join hcut, ih hlinks, row_join hlink]
    | true =>
      have hright : (ofRuns (cut tier right links)).row = row ⟨right, links⟩ := ih hlinks
      rw [ofRuns_cut_end hcut]
      simp only [row, List.flatMap_cons, List.cons_append] at hright ⊢
      rw [hright]

/-- Where every operator belongs to the tier, each operand is a run of its own. -/
theorem ofRuns_cut_all (h : ∀ link ∈ links, link.1.isIn tier = true) :
    ofRuns (cut tier first links) = ⟨first, links⟩ := by
  induction links generalizing first with
  | nil => rfl
  | cons link links ih =>
    obtain ⟨operator, right⟩ := link
    obtain ⟨hlink, hlinks⟩ := List.forall_mem_cons.1 h
    rw [ofRuns_cut_end hlink, ih hlinks]

end Run

theorem Precedence.row_tree (precedence : Precedence) (h : Run.WellFormed ⟨first, links⟩) :
    (precedence.tree first links).row true = Run.row ⟨first, links⟩ := by
  obtain ⟨hruns, -⟩ := Run.wellFormed_ofRuns precedence.secondTier h
  rw [Precedence.tree, Run.row_fold hruns.operators, Run.row_ofRuns_cut _ h.operators]

/-- Operators of one tier are folded from the left, whatever the precedence. -/
theorem Precedence.tree_eq_fold (precedence : Precedence) (h : Run.WellFormed ⟨first, links⟩)
    (hmix : mixesTiers (links.map Prod.fst) = false) :
    precedence.tree first links = Run.fold ⟨first, links⟩ := by
  have htier : (∀ link ∈ links, link.1.isIn precedence.secondTier = false) ∨
      ∀ link ∈ links, link.1.isIn precedence.firstTier = false := by
    simp only [mixesTiers, Bool.and_eq_false_iff, List.any_map, List.any_eq_false,
      Function.comp_apply, Bool.not_eq_true] at hmix
    cases precedence with
    | standard => exact hmix
    | legacy => exact hmix.symm
  rw [Precedence.tree]
  -- Either nothing is cut, or every operator is.
  rcases htier with hnone | hnone
  · rw [Run.ofRuns_cut_none hnone]
    rfl
  · rw [Run.ofRuns_cut_all]
    intro link hlink
    have hshare := precedence.isIn_firstTier (h.operators link hlink)
    rw [hnone link hlink] at hshare
    rw [← Bool.not_not (link.1.isIn precedence.secondTier), ← hshare]
    rfl

/-- The node of a row with an operator in it is wrapped. -/
theorem wrapExpression_tree {link : Token × Node} (h : Run.WellFormed ⟨first, link :: links⟩) :
    wrapExpression line (precedence.tree first (link :: links)) =
      .phrase .expr line [precedence.tree first (link :: links)] := by
  apply if_neg
  intro hkind
  -- An expression would stand for itself in the row, where the operator stands.
  have hmem : Node.mk link.1 none [] ∈ (precedence.tree first (link :: links)).row true := by
    rw [precedence.row_tree h]
    exact List.mem_append_right _ List.mem_cons_self
  rw [row_eq_flat (.inr (.inl (by rw [hkind]; rfl))), List.mem_singleton] at hmem
  have hoperator := h.operators link List.mem_cons_self
  have htoken : link.1 = (precedence.tree first (link :: links)).token :=
    congrArg Node.token hmem
  rw [htoken] at hoperator
  rw [Node.kind] at hkind
  rw [hkind] at hoperator
  cases hoperator

/-! ### Levels of parentheses -/

/-- The operators behind the first operand of an expression. -/
def Links.operators : Links → List Token
  | .nil => []
  | .cons operator _ rest _ => operator :: rest.operators

mutual

/-- In no parentheses of an operand, operators of both tiers stand on one level. -/
def Operand.isUnmixed : Operand → Bool
  | .numeral _ _ => true
  | .group _ inner _ _ _ => inner.isUnmixed

/-- This is so for the operands behind the first one. -/
def Links.areUnmixed : Links → Bool
  | .nil => true
  | .cons _ right rest _ => right.isUnmixed && rest.areUnmixed

/-- On no level of parentheses of an expression, there are operators of both tiers. -/
def Expression.isUnmixed : Expression → Bool
  | .chain first links =>
    !mixesTiers links.operators && (first.isUnmixed && links.areUnmixed)
  | .call _ argument _ => argument.isUnmixed

end

theorem isOperator_of_isArgument {node : Node} (h : isArgument node = true) :
    node.kind.isOperator = false := by
  cases hkind : node.kind <;> simp_all [isArgument, Kind.isOperator, Kind.isNumeral]

/-- An argument stands for itself in a row. -/
theorem row_of_isArgument {node : Node} (h : isArgument node = true) :
    node.row true = [node.flat] :=
  row_eq_flat (.inr (.inl (isOperator_of_isArgument h)))

theorem mixesTiers_cons_of_not {tokens : List Token} (h : token.kind.isOperator = false) :
    mixesTiers (token :: tokens) = mixesTiers tokens := by
  simp [mixesTiers, Token.isIn_eq_false h]

/-- A wrapped node is unmixed if its row is. -/
theorem isUnmixed_wrapExpression (line : Nat) (node : Node) :
    (wrapExpression line node).flat.isUnmixed =
      (!mixesTiers ((node.row true).map Node.token) && areUnmixed (node.row true)) := by
  unfold wrapExpression
  split
  · next hkind =>
    have hoperator : node.kind.isOperator = false := by
      rw [hkind]
      rfl
    have hmix : mixesTiers [node.flat.token] = false := mixesTiers_cons_of_not hoperator
    rw [row_eq_flat (.inr (.inl hoperator)), areUnmixed_singleton, List.map_singleton, hmix]
    rfl
  · have hflat := row_phrase line node false
    rw [row_eq_flat (.inl rfl)] at hflat
    rw [(List.cons.inj hflat).1, isUnmixed_expr]

/-- What stands for the operators behind the first operand and for the operands to their right. -/
def Links.row (precedence : Precedence) (links : Links) : List Node :=
  (links.trees precedence).flatMap fun link => ⟨link.1, none, []⟩ :: link.2.row true

theorem Links.row_cons (precedence : Precedence) (operator : Token) (right : Operand)
    (rest : Links) (h : operator.kind.isOperator = true) :
    (Links.cons operator right rest h).row precedence =
      ⟨operator, none, []⟩ :: (right.tree precedence).flat :: rest.row precedence := by
  simp only [Links.row, Links.trees, List.flatMap_cons,
    row_of_isArgument (right.isArgument_tree precedence), List.cons_append, List.nil_append]

theorem isUnmixed_leaf (token : Token) : (Node.leaf token).flat.isUnmixed = true := by
  simp [Node.leaf, Node.branch, Node.flat, rows, isUnmixed, areUnmixed, mixesTiers]

/-- A chain of operands is unmixed if they are and if its operators belong to one tier. -/
theorem isUnmixed_chain {first : Operand} {links : Links} (line : Nat)
    (hfirst : (first.tree precedence).flat.isUnmixed = first.isUnmixed)
    (hlinks : areUnmixed (links.row precedence) = links.areUnmixed)
    (hoperators : ∀ tier, ((links.row precedence).map Node.token).any (·.isIn tier) =
      links.operators.any (·.isIn tier)) :
    (wrapExpression line (precedence.tree (first.tree precedence)
      (links.trees precedence))).flat.isUnmixed = (Expression.chain first links).isUnmixed := by
  have hargument := first.isArgument_tree precedence
  have hoperator := isOperator_of_isArgument hargument
  have hrow : (precedence.tree (first.tree precedence) (links.trees precedence)).row true =
      (first.tree precedence).flat :: links.row precedence := by
    rw [precedence.row_tree (first.wellFormed_run precedence links), Run.row,
      row_of_isArgument hargument]
    rfl
  have hmix : mixesTiers
      ((first.tree precedence).flat.token :: (links.row precedence).map Node.token) =
      mixesTiers links.operators := by
    refine (mixesTiers_cons_of_not hoperator).trans ?_
    unfold mixesTiers
    rw [hoperators, hoperators]
  rw [isUnmixed_wrapExpression, hrow, List.map_cons, hmix, Node.areUnmixed, hfirst, hlinks]
  rfl

mutual

theorem Operand.isUnmixed_tree (precedence : Precedence) : (operand : Operand) →
    (operand.tree precedence).flat.isUnmixed = operand.isUnmixed
  | .numeral token _ => isUnmixed_leaf token
  | .group _ inner _ _ _ => inner.isUnmixed_tree precedence

theorem Links.isUnmixed_row (precedence : Precedence) : (links : Links) →
    Node.areUnmixed (links.row precedence) = links.areUnmixed ∧
      ∀ tier, ((links.row precedence).map Node.token).any (·.isIn tier) =
        links.operators.any (·.isIn tier)
  | .nil => ⟨rfl, fun _ => rfl⟩
  | .cons operator right rest h => by
    have hoperator : Node.isUnmixed ⟨operator, none, []⟩ = true := isUnmixed_leaf operator
    have hright := right.isUnmixed_tree precedence
    obtain ⟨hrest, hoperators⟩ := rest.isUnmixed_row precedence
    rw [Links.row_cons]
    constructor
    · rw [Node.areUnmixed, Node.areUnmixed, hoperator, hright, hrest]
      rfl
    · -- The operand in between is no operator of either tier.
      intro tier
      have hargument := isOperator_of_isArgument (right.isArgument_tree precedence)
      have hnone : (right.tree precedence).flat.token.isIn tier = false :=
        Token.isIn_eq_false hargument
      rw [List.map_cons, List.map_cons, List.any_cons, List.any_cons, hnone, hoperators]
      rfl

/-- A tree is unmixed if and only if no level of parentheses of its expression has operators of both
    tiers. -/
theorem Expression.isUnmixed_tree (precedence : Precedence) : (expression : Expression) →
    (expression.tree precedence).flat.isUnmixed = expression.isUnmixed
  | .chain (.numeral token _) .nil => isUnmixed_leaf token
  | .chain (.numeral token hnumeral) (.cons operator right rest hoperator) => by
    have hfirst := Operand.isUnmixed_tree precedence (.numeral token hnumeral)
    have hlinks := Links.isUnmixed_row precedence (.cons operator right rest hoperator)
    exact isUnmixed_chain _ hfirst hlinks.1 hlinks.2
  | .chain (.group opening inner closing hopen hclose) links => by
    have hfirst := Operand.isUnmixed_tree precedence (.group opening inner closing hopen hclose)
    have hlinks := links.isUnmixed_row precedence
    exact isUnmixed_chain _ hfirst hlinks.1 hlinks.2
  | .call function argument hfunction => by
    have hargument := argument.isUnmixed_tree precedence
    have hoperator := Kind.isOperator_of_isFunction hfunction
    have hexpr : (function.kind == .phrase .expr) = false := by
      cases hkind : function.kind <;> simp_all [Kind.isFunction]
    rw [Expression.tree, isUnmixed_wrapExpression, row_branch (.inr (.inl hoperator)), hexpr,
      rows_false, areUnmixed_singleton, Node.isUnmixed, hexpr, List.map_singleton,
      List.map_singleton, areUnmixed_singleton, hargument]
    have hmix : mixesTiers [function] = false := mixesTiers_cons_of_not hoperator
    rw [hmix]
    rfl

end

end CalcLang
