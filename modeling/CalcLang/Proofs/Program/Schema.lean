import CalcLang.Proofs.Program.Compilation
import Mathlib

/-! # The shape of a tree

    Which nodes the tree of a program has, and over which children, so that whoever walks it can count
    on them:

    * `IsTerm`: the tree of an expression where one is asked for.
    * `IsConditionTree`: the tree of a condition.
    * `IsStatementTree`: the tree of a statement, with the blocks inside it.
    * `compile_schema`: whatever text is compiled, its tree is one of a program.

    The tree of a row of operands is a node of an operator from the first fold on, and stays one. -/

namespace CalcLang

/-! ### Expressions -/

mutual

/-- What stands where an expression is asked for: a numeral, or the node of an expression, which is
    never doubled. -/
inductive IsTerm : Node → Prop where
  | numeral {token : Token} (hnumeral : token.kind.isNumeral = true) : IsTerm (.leaf token)
  | expression {inner : Node} (line : Nat) (hinner : IsInterior inner) :
      IsTerm (.phrase .expr line [inner])

/-- What stands inside the node of an expression: a numeral, an operation, or a function and its
    argument. -/
inductive IsInterior : Node → Prop where
  | numeral {token : Token} (hnumeral : token.kind.isNumeral = true) : IsInterior (.leaf token)
  | operation {node : Node} (h : IsOperation node) : IsInterior node
  | call {function : Token} {argument : Node} (hfunction : function.kind.isFunction = true)
      (hargument : IsTerm argument) : IsInterior (.branch function [argument])

/-- An operator over its two operands. -/
inductive IsOperation : Node → Prop where
  | mk {operator : Token} {left right : Node} (hoperator : operator.kind.isOperator = true)
      (hleft : IsFactor left) (hright : IsFactor right) :
      IsOperation (.branch operator [left, right])

/-- What an operator may have on either side: a term, or another operation. -/
inductive IsFactor : Node → Prop where
  | term {node : Node} (h : IsTerm node) : IsFactor node
  | operation {node : Node} (h : IsOperation node) : IsFactor node

end

/-! ### Conditions -/

/-- The tree of a condition: a comparison of two expressions, a negated condition, or two conditions
    and a connective between them. -/
inductive IsConditionTree : Node → Prop where
  | comparison {mark : Token} {left right : Node} (line : Nat)
      (hmark : mark.kind.isComparison = true) (hleft : IsTerm left) (hright : IsTerm right) :
      IsConditionTree (.phrase .boolExpr line [.branch mark [left, right]])
  | negation {mark : Token} {inner : Node} (line : Nat) (hmark : mark.kind = .connective .not)
      (hinner : IsConditionTree inner) :
      IsConditionTree (.phrase .logicExpr line [.branch mark [inner]])
  | joined {mark : Token} {left right : Node} (line : Nat)
      (hmark : mark.kind.isConnective = true) (hbinary : mark.kind ≠ .connective .not)
      (hleft : IsConditionTree left) (hright : IsConditionTree right) :
      IsConditionTree (.phrase .logicExpr line [.branch mark [left, right]])

/-! ### Statements -/

/-- The tree of a statement: a word over the operands that it takes, an assignment, or a conditional
    over its condition and one or two blocks, none of them empty. -/
inductive IsStatementTree : Node → Prop where
  | fixed {keyword : Token} {operands : List Token} {shape : List (Kind → Bool)}
      (hshape : keyword.kind.operands? = some shape) (hfits : Fits shape operands) :
      IsStatementTree (.branch keyword (operands.map .leaf))
  | assignment {arrow target : Token} {expression : Node} (harrow : arrow.kind = .assign)
      (htarget : target.kind.isVariable = true) (hexpression : IsTerm expression) :
      IsStatementTree (.branch arrow [.leaf target, expression])
  | ifThen {keyword : Token} {condition : Node} {statements : List Node} (line : Nat)
      (hkeyword : keyword.kind = .keyword .ifWord) (hcondition : IsConditionTree condition)
      (hfull : statements ≠ []) (hbody : ∀ node ∈ statements, IsStatementTree node) :
      IsStatementTree (.branch keyword [condition, .phrase .block line statements])
  | ifThenElse {keyword : Token} {condition : Node} {statements statements' : List Node}
      (line line' : Nat) (hkeyword : keyword.kind = .keyword .ifWord)
      (hcondition : IsConditionTree condition)
      (hfull : statements ≠ []) (hbody : ∀ node ∈ statements, IsStatementTree node)
      (hfull' : statements' ≠ []) (halternative : ∀ node ∈ statements', IsStatementTree node) :
      IsStatementTree (.branch keyword [condition, .phrase .block line statements,
        .phrase .block line' statements'])

/-- The tree of a program: statements under the node of the program, which may have a name. -/
inductive IsProgramTree : Node → Prop where
  | mk {name : Option String} {statements : List Node} (line : Nat)
      (h : ∀ node ∈ statements, IsStatementTree node) :
      IsProgramTree ⟨.plain (.phrase .prog) line, name, statements⟩

variable {options : ReadOptions} {precedence : Precedence} {tier : List Operator}
  {operator mark : Token} {first right node tree : Node} {links : List (Token × Node)} {level : Nat}
  {span before tokens after skipped : List Token} {stop : BlockEnd} {statements : List Node}

/-! ### The tree of an expression -/

/-- A row of operands, each of them a factor. -/
structure Run.IsRow (run : Run) : Prop where
  first : IsFactor run.first
  operators : ∀ link ∈ run.links, link.1.kind.isOperator = true
  operands : ∀ link ∈ run.links, IsFactor link.2

/-- A row whose tree is an operation: it has an operator, or its first operand has. -/
def Run.HasOperator (run : Run) : Prop := IsOperation run.first ∨ run.links ≠ []

namespace Run.IsRow

theorem head (h : IsRow ⟨first, (operator, right) :: links⟩) :
    IsOperation (.branch operator [first, right]) :=
  .mk (h.operators _ (List.mem_cons_self ..)) h.first (h.operands _ (List.mem_cons_self ..))

theorem tail (h : IsRow ⟨first, (operator, right) :: links⟩) (hnode : IsFactor node) :
    IsRow ⟨node, links⟩ where
  first := hnode
  operators link hlink := h.operators link (List.mem_cons_of_mem _ hlink)
  operands link hlink := h.operands link (List.mem_cons_of_mem _ hlink)

theorem isOperation_fold {run : Run} (h : run.IsRow) (hoperator : run.HasOperator) :
    IsOperation run.fold := by
  obtain ⟨first, links⟩ := run
  induction links generalizing first with
  | nil =>
    obtain hoperator | hnone := hoperator
    · exact hoperator
    · exact absurd rfl hnone
  | cons link links ih => exact ih _ (h.tail (.operation h.head)) (.inl h.head)

/-- Cutting a row keeps its operands factors and loses no operator. -/
theorem ofRuns_cut (tier : List Operator) (h : IsRow ⟨first, links⟩) :
    IsRow (ofRuns (cut tier first links)) ∧
      (HasOperator ⟨first, links⟩ → HasOperator (ofRuns (cut tier first links))) := by
  induction links generalizing first with
  | nil => exact ⟨h, id⟩
  | cons link rest ih =>
    obtain ⟨operator, right⟩ := link
    cases hcut : operator.isIn tier with
    | false =>
      rw [ofRuns_cut_join hcut]
      obtain ⟨hrow, hkeeps⟩ := ih (h.tail (.operation h.head))
      exact ⟨hrow, fun _ => hkeeps (.inl h.head)⟩
    | true =>
      have hright := h.operands _ (List.mem_cons_self ..)
      obtain ⟨hrow, -⟩ := ih (h.tail hright)
      rw [ofRuns_cut_end hcut]
      refine ⟨⟨h.first, ?_, ?_⟩, fun _ => .inr nofun⟩
      · intro link hlink
        obtain rfl | hlink := List.mem_cons.1 hlink
        · exact h.operators (operator, right) (List.mem_cons_self ..)
        · exact hrow.operators link hlink
      · intro link hlink
        obtain rfl | hlink := List.mem_cons.1 hlink
        · exact hrow.first
        · exact hrow.operands link hlink

theorem isOperation_tree (h : IsRow ⟨first, links⟩) (hlinks : links ≠ []) :
    IsOperation (precedence.tree first links) := by
  obtain ⟨hrow, hkeeps⟩ := h.ofRuns_cut precedence.secondTier
  exact hrow.isOperation_fold (hkeeps (.inr hlinks))

end Run.IsRow

theorem IsTerm.wrap (line : Nat) (h : IsTerm node) : IsTerm (wrapExpression line node) := by
  unfold wrapExpression
  cases h with
  | numeral hnumeral =>
    split
    · exact .numeral hnumeral
    · exact .expression line (.numeral hnumeral)
  | expression line' hinner => exact .expression line' hinner

/-- A kind of any family that has no phrases is the kind of a token. -/
theorem Kind.isScanned_of {kind : Kind} (family : Kind → Bool)
    (hphrase : ∀ phrase, family (.phrase phrase) = false) (h : family kind = true) :
    kind.isScanned = true := by
  cases kind with
  | phrase phrase =>
    rw [hphrase] at h
    cases h
  | _ => rfl

theorem IsOperation.isScanned (h : IsOperation node) : node.kind.isScanned = true := by
  obtain ⟨hoperator, -, -⟩ := h
  exact Kind.isScanned_of Kind.isOperator (fun _ => rfl) hoperator

theorem IsInterior.isScanned (h : IsInterior node) : node.kind.isScanned = true := by
  cases h with
  | numeral hnumeral => exact Kind.isScanned_of Kind.isNumeral (fun _ => rfl) hnumeral
  | operation h => exact h.isScanned
  | call hfunction hargument => exact Kind.isScanned_of Kind.isFunction (fun _ => rfl) hfunction

theorem IsInterior.kind_ne (h : IsInterior node) : node.kind ≠ .phrase .expr := by
  intro hkind
  have hscanned := h.isScanned
  rw [hkind] at hscanned
  cases hscanned

/-- A node that is no node of an expression yet gets one around it. -/
theorem IsInterior.wrap (line : Nat) (h : IsInterior node) : IsTerm (wrapExpression line node) := by
  unfold wrapExpression
  rw [if_neg h.kind_ne]
  exact .expression line h

/-- A row of operands has an operation for its tree, unless it is a lone operand. -/
theorem isTerm_chain (precedence : Precedence) (line : Nat) (hfirst : IsTerm first)
    (hlinks : ∀ link ∈ links, link.1.kind.isOperator = true ∧ IsTerm link.2) :
    IsTerm (wrapExpression line (precedence.tree first links)) := by
  by_cases hnone : links = []
  · rw [hnone]
    exact hfirst.wrap line
  · have hrow : Run.IsRow ⟨first, links⟩ := {
      first := .term hfirst
      operators := fun link hlink => (hlinks link hlink).1
      operands := fun link hlink => .term (hlinks link hlink).2 }
    exact IsInterior.wrap line (.operation (hrow.isOperation_tree hnone))

mutual

theorem Operand.isTerm_tree (precedence : Precedence) : (operand : Operand) →
    IsTerm (operand.tree precedence)
  | .numeral _ hnumeral => .numeral hnumeral
  | .group _ inner _ _ _ => inner.isTerm_tree precedence

theorem Links.isTerm_trees (precedence : Precedence) : (links : Links) →
    ∀ link ∈ links.trees precedence, link.1.kind.isOperator = true ∧ IsTerm link.2
  | .nil => nofun
  | .cons operator right rest hoperator => by
    have hright := right.isTerm_tree precedence
    have hrest := rest.isTerm_trees precedence
    intro link hlink
    obtain rfl | hlink := List.mem_cons.1 hlink
    · exact ⟨hoperator, hright⟩
    · exact hrest link hlink

/-- The tree of an expression is a term. -/
theorem Expression.isTerm_tree (precedence : Precedence) : (expression : Expression) →
    IsTerm (expression.tree precedence)
  | .chain (.numeral token hnumeral) .nil => .numeral hnumeral
  | .chain (.numeral token hnumeral) (.cons operator right rest hoperator) => by
    have hlinks := (Links.cons operator right rest hoperator).isTerm_trees precedence
    exact isTerm_chain precedence token.line (.numeral hnumeral) hlinks
  | .chain (.group opening inner closing hopen hclose) links => by
    have hinner := inner.isTerm_tree precedence
    have hlinks := links.isTerm_trees precedence
    exact isTerm_chain precedence opening.line hinner hlinks
  | .call function argument hfunction => by
    have hargument := argument.isTerm_tree precedence
    exact IsInterior.wrap function.line (.call hfunction hargument)

end

/-- What is read as an expression is a term. -/
theorem isTerm_of_read (hline : IsLine span)
    (h : (readExpression options span).result = .ok tree) : IsTerm tree := by
  obtain ⟨expression, -, rfl⟩ := exists_tree_of_read hline h
  exact expression.isTerm_tree options.precedence

/-! ### The tree of a condition -/

theorem IsComparison.isConditionTree (h : IsComparison options span tree) (hline : IsLine span) :
    IsConditionTree tree := by
  induction h with
  | @compare left right mark leftTree rightTree hmark hleft hright =>
    have hleft := isTerm_of_read hline.of_append_left hleft
    have hright := isTerm_of_read hline.of_append_right.of_cons hright
    exact .comparison mark.line hmark hleft hright
  | group hopen hclose hinner ih => exact ih hline.of_group

mutual

theorem IsSide.isConditionTree {level : Nat} {span : List Token} {tree : Node} :
    IsSide options level span tree → IsLine span → IsConditionTree tree
  | .comparison h, hline => h.isConditionTree hline
  | .group _ _ hinner, hline => hinner.isConditionTree hline.of_group

/-- The tree of a condition of the grammar has the shape of one. -/
theorem IsCondition.isConditionTree {level : Nat} {span : List Token} {tree : Node} :
    IsCondition options level span tree → IsLine span → IsConditionTree tree
  | .side h, hline => h.isConditionTree hline
  | @IsCondition.negation _ mark _ _ _ hmark hright, hline =>
    .negation mark.line hmark (hright.isConditionTree hline.of_cons)
  | @IsCondition.joined _ mark _ _ _ _ _ _ hmark hbinary hleft hright, hline =>
    .joined mark.line hmark hbinary (hleft.isConditionTree hline.of_append_left)
      (hright.isConditionTree hline.of_append_right.of_cons)

end

/-! ### The trees of statements -/

theorem OnLine.isLine (h : OnLine span) (hscanned : IsScanned span) : IsLine span := by
  intro t ht
  rw [Kind.isWord, hscanned t ht, h t ht]
  rfl

theorem IsGuard.isConditionTree (h : IsGuard options span tree) (hscanned : IsScanned span) :
    IsConditionTree tree := by
  obtain ⟨level, -, hcondition, -⟩ := exists_condition_of_read h.read
  exact hcondition.isConditionTree (h.line.isLine hscanned)

theorem IsSimple.isStatementTree (h : IsSimple options before tokens after tree)
    (hscanned : IsScanned tokens) : IsStatementTree tree := by
  cases h with
  | fixed hshape hplace hfits => exact .fixed hshape hfits
  | assignment htarget harrow hspan hline hends hread =>
    have hwords := hline.isLine hscanned.of_cons.of_cons
    exact .assignment harrow htarget (isTerm_of_read hwords hread)
  | store hopens hparts hlone hline hends hread =>
    have hwords := hline.isLine hscanned
    rw [hparts.parts] at hwords
    exact .assignment hparts.arrow hparts.target (isTerm_of_read hwords.of_append_left hread)

mutual

/-- The tree of a statement of the grammar has the shape of one. -/
theorem IsStatement.isStatementTree {before tokens after skipped : List Token} {tree : Node} :
    IsStatement options before tokens after skipped tree → IsScanned tokens → IsStatementTree tree
  | .simple h, hscanned => h.isStatementTree hscanned
  | @IsStatement.ifThen _ keyword _ _ _ _ _ _ _ _ _ hkeyword hguard _ hbody hfull _, hscanned => by
    have hcondition := hguard.isConditionTree hscanned.of_cons.of_append_left
    have hbehind := hscanned.of_cons.of_append_right.of_cons
    have hstatements := hbody.isStatementTree hbehind.of_append_left
    exact .ifThen keyword.line hkeyword hcondition hfull hstatements
  | @IsStatement.ifThenElse _ keyword _ elseWord _ _ _ _ _ _ _ _ _ _ _ hkeyword hguard _ hbody hfull
      _ halternative hfull' _, hscanned => by
    have hcondition := hguard.isConditionTree hscanned.of_cons.of_append_left
    have hbehind := hscanned.of_cons.of_append_right.of_cons
    have hstatements := hbody.isStatementTree hbehind.of_append_left
    have hothers := halternative.isStatementTree hbehind.of_append_right.of_cons.of_append_left
    exact .ifThenElse keyword.line elseWord.line hkeyword hcondition hfull hstatements hfull' hothers
  | @IsStatement.ifLine _ keyword _ _ _ _ _ _ _ _ hkeyword hguard _ _ hbody hfull, hscanned => by
    have hcondition := hguard.isConditionTree hscanned.of_cons.of_append_left
    have hbehind := hscanned.of_cons.of_append_right
    have hstatements := hbody.isStatementTree hbehind.of_append_right
    exact .ifThen keyword.line hkeyword hcondition hfull hstatements

/-- The trees of a block of the grammar have the shape of statements. -/
theorem IsBlock.isStatementTree {stop : BlockEnd} {before tokens after skipped : List Token}
    {statements : List Node} :
    IsBlock options stop before tokens after skipped statements → IsScanned tokens →
      ∀ node ∈ statements, IsStatementTree node
  | .finish _, _ => nofun
  | .newLine _ _ hrest, hscanned => hrest.isStatementTree hscanned.of_cons
  | .statement htokens hrest, hscanned => by
    have hfirst := htokens.isStatementTree hscanned.of_append_left
    have hlater := hrest.isStatementTree hscanned.of_append_right
    intro node hnode
    obtain rfl | hnode := List.mem_cons.1 hnode
    · exact hfirst
    · exact hlater node hnode
  | .skip _ _ _ hrest, hscanned => hrest.isStatementTree hscanned.of_cons

end

/-! ### Main result -/

/-- Whatever text is compiled, under whatever options, every node of its tree stands over the children
    that its kind is to have. -/
theorem compile_schema (options : ReadOptions) (source : String) (compilation : Compilation)
    (h : compile options source = .ok compilation) : IsProgramTree compilation.root := by
  obtain ⟨body, skipped, statements, hcompiled, rfl⟩ := compile_eq_ok_iff.1 h
  have hstatements := hcompiled.block.isStatementTree hcompiled.isScanned
  exact .mk 0 hstatements

/-- A conditional in line form, behind a token that is skipped. -/
theorem compile_schema_conditional :
    IsProgramTree ⟨.plain (.phrase .prog) 0, none,
      [.branch ⟨.keyword .ifWord, none, 1⟩
        [.phrase .boolExpr 1 [.branch ⟨.comparison .equal, none, 1⟩
          [.leaf ⟨.var .scalar, some "A", 1⟩, .leaf ⟨.literal .int, some "1", 1⟩]],
        .phrase .block 1 [.branch ⟨.assign, none, 2⟩
          [.leaf ⟨.var .scalar, some "B", 2⟩,
            .phrase .expr 2 [.leaf ⟨.literal .int, some "2", 2⟩]]]]]⟩ :=
  compile_schema .default ") IF A == 1\n(2) -> B" ⟨_, [⟨1, "skipped unexpected token R_PAREN"⟩]⟩
    (by cbv)

end CalcLang
