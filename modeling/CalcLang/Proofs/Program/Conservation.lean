import CalcLang.Proofs.Program.Schema
import Mathlib

/-! # No token is lost

    Tokens leave a session by many routes: one by one, as the span of an expression or a condition, as
    a stripped parenthesis, or skipped.  Whichever route they take, the words among them end up in the
    tree or in the notes, each of them once:

    * `kept`: the words of some tokens that a tree is to hold.
    * `Node.words`: the words that a tree does hold.
    * `compile_conserves`: the words of a text that is compiled are those of its tree and those that
      are skipped.

    The order of the words is not the one of the tree, where an operator stands before its operands,
    so both are counted as multisets. -/

namespace CalcLang

/-- The kinds of the tokens that are to stand in a tree: all but the ends of lines, parentheses and
    the words between the parts of a conditional. -/
def Kind.isKept : Kind → Bool
  | .lineBreak | .endOfFile | .openParen | .closeParen => false
  | .keyword .thenWord | .keyword .elseWord | .keyword .endWord => false
  | _ => true

/-- The words of some tokens that a tree is to hold. -/
def kept (tokens : List Token) : Multiset Token :=
  (tokens.filter (·.kind.isKept) : List Token)

/-- The words that a tree holds: the tokens of its nodes, but for those of phrases. -/
def Node.words (node : Node) : Multiset Token :=
  ((node.walk.map (·.2.token)).filter (·.kind.isScanned) : List Token)

variable {options : ReadOptions} {precedence : Precedence} {token : Token} {node tree : Node}
  {children statements : List Node} {more span before tokens after skipped : List Token}
  {stop : BlockEnd} {level : Nat}

/-! ### The words of some tokens -/

@[simp] theorem kept_nil : kept [] = 0 := rfl

@[simp] theorem kept_append (tokens more : List Token) :
    kept (tokens ++ more) = kept tokens + kept more := by
  simp [kept]

theorem kept_cons_eq (token : Token) (tokens : List Token) :
    kept (token :: tokens) = kept [token] + kept tokens :=
  kept_append [token] tokens

theorem kept_cons (h : token.kind.isKept = true) :
    kept (token :: tokens) = {token} + kept tokens := by
  simp [kept, h]

theorem kept_drop (h : token.kind.isKept = false) : kept (token :: tokens) = kept tokens := by
  simp [kept, h]

theorem kept_eq_zero (h : ∀ t ∈ tokens, t.kind.isKept = false) : kept tokens = 0 := by
  unfold kept
  rw [List.filter_eq_nil_iff.2 fun t ht => by simp [h t ht]]
  rfl

/-! ### The words of a tree -/

mutual

theorem Node.tokens_walkFrom (depth depth' : Nat) : (node : Node) →
    (walkFrom depth node).map (·.2.token) = (walkFrom depth' node).map (·.2.token)
  | ⟨token, name, children⟩ => by
    simp [walkFrom, tokens_walkList (depth + 1) (depth' + 1) children]

theorem Node.tokens_walkList (depth depth' : Nat) : (nodes : List Node) →
    (walkList depth nodes).map (·.2.token) = (walkList depth' nodes).map (·.2.token)
  | [] => rfl
  | node :: rest => by
    simp [walkList, tokens_walkFrom depth depth' node, tokens_walkList depth depth' rest]

end

/-- The words of a row of trees are those of its trees, at whatever depth they are walked. -/
theorem Node.words_walkList (depth : Nat) (nodes : List Node) :
    Multiset.ofList (((walkList depth nodes).map (·.2.token)).filter (·.kind.isScanned)) =
      (nodes.map words).sum := by
  induction nodes with
  | nil => rfl
  | cons node rest ih =>
    rw [List.map_cons, List.sum_cons, ← ih, walkList, List.map_append, List.filter_append,
      tokens_walkFrom depth 0, ← Multiset.coe_add]
    rfl

theorem Node.words_mk (token : Token) (name : Option String) (children : List Node) :
    (Node.mk token name children).words =
      (if token.kind.isScanned then {token} else 0) + (children.map words).sum := by
  rw [← words_walkList 1, words, walk, walkFrom, List.map_cons, List.filter_cons]
  split <;> simp

theorem Node.words_branch (h : token.kind.isScanned = true) :
    (branch token children).words = {token} + (children.map words).sum := by
  rw [branch, words_mk, if_pos h]

@[simp] theorem Node.words_phrase (phrase : Phrase) (line : Nat) (children : List Node) :
    (Node.phrase phrase line children).words = (children.map words).sum := by
  have hphrase : (Token.plain (.phrase phrase) line).kind.isScanned ≠ true := Bool.false_ne_true
  rw [Node.phrase, branch, words_mk, if_neg hphrase, zero_add]

theorem Node.words_leaf (h : token.kind.isScanned = true) : (leaf token).words = {token} := by
  rw [leaf, words_branch h, List.map_nil, List.sum_nil, add_zero]

theorem Node.words_leaves (h : IsScanned tokens) :
    ((tokens.map leaf).map words).sum = Multiset.ofList tokens := by
  induction tokens with
  | nil => rfl
  | cons token rest ih =>
    rw [List.map_cons, List.map_cons, List.sum_cons, words_leaf (h token (List.mem_cons_self ..)),
      ih h.of_cons]
    rfl

/-! ### Expressions -/

mutual

theorem IsTerm.words_eq {node : Node} : IsTerm node → node.words = Multiset.ofList node.inOrder
  | @IsTerm.numeral token hnumeral => by
    exact Node.words_leaf (Kind.isScanned_of Kind.isNumeral (fun _ => rfl) hnumeral)
  | @IsTerm.expression inner line hinner => by
    have hwords := hinner.words_eq
    rw [Node.words_phrase, List.map_singleton, List.sum_singleton, hwords]
    rfl

theorem IsInterior.words_eq {node : Node} :
    IsInterior node → node.words = Multiset.ofList node.inOrder
  | @IsInterior.numeral token hnumeral => by
    exact Node.words_leaf (Kind.isScanned_of Kind.isNumeral (fun _ => rfl) hnumeral)
  | .operation h => h.words_eq
  | @IsInterior.call function argument hfunction hargument => by
    have hwords := hargument.words_eq
    have hscanned := Kind.isScanned_of Kind.isFunction (fun _ => rfl) hfunction
    have hkind : function.kind ≠ .phrase .expr := (IsInterior.call hfunction hargument).kind_ne
    rw [Node.words_branch hscanned, List.map_singleton, List.sum_singleton, hwords, Node.branch,
      Node.inOrder, if_neg hkind]
    rfl

theorem IsOperation.words_eq {node : Node} :
    IsOperation node → node.words = Multiset.ofList node.inOrder
  | @IsOperation.mk operator left right hoperator hleft hright => by
    have hwords := hleft.words_eq
    have hwords' := hright.words_eq
    have hscanned := Kind.isScanned_of Kind.isOperator (fun _ => rfl) hoperator
    rw [Node.words_branch hscanned, List.map_cons, List.map_singleton, List.sum_cons,
      List.sum_singleton, hwords, hwords', Node.branch, Node.inOrder, ← Multiset.coe_add,
      ← Multiset.cons_coe, ← Multiset.singleton_add]
    abel

/-- The words of the tree of an expression are those that are read back from it in order. -/
theorem IsFactor.words_eq {node : Node} : IsFactor node → node.words = Multiset.ofList node.inOrder
  | .term h => h.words_eq
  | .operation h => h.words_eq

end

theorem Kind.isKept_of_isArithmetic {kind : Kind} (h : kind.isArithmetic = true) :
    kind.isKept = !kind.isParen := by
  cases kind <;> simp_all [isArithmetic, isNumeral, isOperator, isFunction, isParen, isKept]

/-- An expression that is read keeps all of its words but the parentheses. -/
theorem words_of_readExpression (hline : IsLine span)
    (h : (readExpression options span).result = .ok tree) : tree.words = kept span := by
  obtain ⟨expression, rfl, rfl⟩ := exists_tree_of_read hline h
  rw [(expression.isTerm_tree options.precedence).words_eq, expression.inOrder_tree, kept]
  congr 1
  apply List.filter_congr
  intro t ht
  exact (Kind.isKept_of_isArithmetic (expression.isArithmetic t ht)).symm

/-! ### Conditions -/

theorem Kind.isKept_of_isComparison {kind : Kind} (h : kind.isComparison = true) :
    kind.isKept = true := by
  cases kind <;> simp_all [isComparison, isKept]

theorem Kind.isKept_of_isConnective {kind : Kind} (h : kind.isConnective = true) :
    kind.isKept = true := by
  cases kind <;> simp_all [isConnective, isKept]

theorem kept_group {opening closing : Token} (hopen : opening.kind = .openParen)
    (hclose : closing.kind = .closeParen) : kept (opening :: span ++ [closing]) = kept span := by
  rw [kept_append, kept_drop (by rw [hopen]; rfl), kept_drop (by rw [hclose]; rfl), kept_nil,
    add_zero]

theorem kept_around {left right : List Token} {mark : Token} (h : mark.kind.isKept = true) :
    kept (left ++ mark :: right) = {mark} + (kept left + kept right) := by
  rw [kept_append, kept_cons h]
  abel

theorem Node.words_marked (h : token.kind.isScanned = true) (phrase : Phrase) (line : Nat) :
    (Node.phrase phrase line [.branch token children]).words =
      {token} + (children.map words).sum := by
  rw [words_phrase, List.map_singleton, List.sum_singleton, words_branch h]

theorem IsComparison.words_eq (h : IsComparison options span tree) (hline : IsLine span) :
    tree.words = kept span := by
  induction h with
  | @compare left right mark leftTree rightTree hmark hleft hright =>
    have hscanned := Kind.isScanned_of Kind.isComparison (fun _ => rfl) hmark
    have hwords := words_of_readExpression hline.of_append_left hleft
    have hwords' := words_of_readExpression hline.of_append_right.of_cons hright
    rw [Node.words_marked hscanned, kept_around (Kind.isKept_of_isComparison hmark)]
    simp [hwords, hwords']
  | group hopen hclose hinner ih => rw [kept_group hopen hclose, ih hline.of_group]

mutual

theorem IsSide.words_eq {level : Nat} {span : List Token} {tree : Node} :
    IsSide options level span tree → IsLine span → tree.words = kept span
  | .comparison h, hline => h.words_eq hline
  | .group hopen hclose hinner, hline => by
    rw [kept_group hopen hclose, hinner.words_eq hline.of_group]

/-- A condition keeps all of its words but the parentheses. -/
theorem IsCondition.words_eq {level : Nat} {span : List Token} {tree : Node} :
    IsCondition options level span tree → IsLine span → tree.words = kept span
  | .side h, hline => h.words_eq hline
  | @IsCondition.negation _ mark _ right tree hmark hright, hline => by
    have hwords := hright.words_eq hline.of_cons
    rw [Node.words_marked (by rw [hmark]; rfl), kept_cons (by rw [hmark]; rfl)]
    simp [hwords]
  | @IsCondition.joined _ mark _ _ left right leftTree rightTree hmark hbinary hleft hright,
      hline => by
    have hscanned := Kind.isScanned_of Kind.isConnective (fun _ => rfl) hmark
    have hwords := hleft.words_eq hline.of_append_left
    have hwords' := hright.words_eq hline.of_append_right.of_cons
    rw [Node.words_marked hscanned, kept_around (Kind.isKept_of_isConnective hmark)]
    simp [hwords, hwords']

end

theorem IsGuard.words_eq (h : IsGuard options span tree) (hscanned : IsScanned span) :
    tree.words = kept span := by
  obtain ⟨level, -, hcondition, -⟩ := exists_condition_of_read h.read
  exact hcondition.words_eq (h.line.isLine hscanned)

/-! ### Statements -/

theorem Kind.isKept_of_isVariable {kind : Kind} (h : kind.isVariable = true) :
    kind.isKept = true := by
  cases kind <;> simp_all [isVariable, isKept]

/-- A word that takes operands is kept, and so are the operands. -/
theorem Kind.isKept_of_operands {kind : Kind} {shape : List (Kind → Bool)}
    (h : kind.operands? = some shape) :
    kind.isKept = true ∧ ∀ allowed ∈ shape, ∀ kind', allowed kind' = true → kind'.isKept = true := by
  unfold operands? at h
  split at h
  all_goals cases h
  all_goals
    refine ⟨rfl, ?_⟩
    simp only [List.mem_cons, forall_eq_or_imp, List.not_mem_nil, false_implies, implies_true,
      and_true]
    and_intros
  all_goals
    intro kind' hkind'
    cases kind' <;> simp_all [isVariable, isDataType, isLiteral, isKept]

theorem Fits.isKept {shape : List (Kind → Bool)} (h : Fits shape tokens)
    (hshape : ∀ allowed ∈ shape, ∀ kind, allowed kind = true → kind.isKept = true) :
    kept tokens = Multiset.ofList tokens := by
  induction shape generalizing tokens with
  | nil =>
    cases tokens with
    | nil => rfl
    | cons token rest => cases h
  | cons allowed shape ih =>
    cases tokens with
    | nil => cases h
    | cons token rest =>
      have hword := hshape allowed (List.mem_cons_self ..) token.kind h.1
      have hrest := ih h.2 fun other hother => hshape other (List.mem_cons_of_mem _ hother)
      rw [kept_cons hword, hrest]
      rfl

theorem IsSimple.words_eq (h : IsSimple options before tokens after tree)
    (hscanned : IsScanned tokens) : tree.words = kept tokens := by
  cases h with
  | @fixed keyword operands _ shape hshape hplace hfits =>
    obtain ⟨hkeyword, hoperands⟩ := Kind.isKept_of_operands hshape
    rw [Node.words_branch (hscanned keyword (List.mem_cons_self ..)),
      Node.words_leaves hscanned.of_cons, kept_cons hkeyword, hfits.isKept hoperands]
  | @assignment target arrow span _ expression htarget harrow hspan hline hends hread =>
    have hwords := words_of_readExpression (hline.isLine hscanned.of_cons.of_cons) hread
    have hleaf := Node.words_leaf (hscanned target (List.mem_cons_self ..))
    rw [Node.words_branch (by rw [harrow]; rfl), kept_cons (Kind.isKept_of_isVariable htarget),
      kept_cons (by rw [harrow]; rfl)]
    simp only [List.map_cons, List.map_nil, List.sum_cons, List.sum_nil, hleaf, hwords]
    abel
  | @store arrow target _ span _ expression hopens hparts hlone hline hends hread =>
    have harrow := hparts.arrow
    obtain rfl := hparts.parts
    have hwords := words_of_readExpression (hline.isLine hscanned).of_append_left hread
    have hleaf := Node.words_leaf (hscanned target (by simp))
    rw [Node.words_branch (by rw [harrow]; rfl), kept_append, kept_cons (by rw [harrow]; rfl),
      kept_cons (Kind.isKept_of_isVariable hparts.target)]
    simp only [List.map_cons, List.map_nil, List.sum_cons, List.sum_nil, hleaf, hwords, kept_nil]
    abel

mutual

theorem IsStatement.kept_eq {before tokens after skipped : List Token} {tree : Node} :
    IsStatement options before tokens after skipped tree → IsScanned tokens →
      kept tokens = tree.words + kept skipped
  | .simple h, hscanned => by
    rw [h.words_eq hscanned, kept_nil, add_zero]
  | @IsStatement.ifThen _ keyword thenWord endWord before guard body after skipped condition
      statements hkeyword hguard hthen hbody hfull hend, hscanned => by
    have hbehind := hscanned.of_cons.of_append_right.of_cons
    have hcondition := hguard.words_eq hscanned.of_cons.of_append_left
    have hstatements := hbody.kept_eq hbehind.of_append_left
    rw [Node.words_branch (by rw [hkeyword]; rfl), kept_cons (by rw [hkeyword]; rfl), kept_append,
      kept_drop (by rw [hthen]; rfl), kept_append, kept_drop (by rw [hend]; rfl), hstatements]
    simp only [List.map_cons, List.map_nil, List.sum_cons, List.sum_nil, Node.words_phrase, kept_nil,
      hcondition]
    abel
  | @IsStatement.ifThenElse _ keyword thenWord elseWord endWord before guard body alternative after
      skipped skipped' condition statements statements' hkeyword hguard hthen hbody hfull helse
      halternative hfull' hend, hscanned => by
    have hbehind := hscanned.of_cons.of_append_right.of_cons
    have hcondition := hguard.words_eq hscanned.of_cons.of_append_left
    have hstatements := hbody.kept_eq hbehind.of_append_left
    have hothers := halternative.kept_eq hbehind.of_append_right.of_cons.of_append_left
    rw [Node.words_branch (by rw [hkeyword]; rfl), kept_cons (by rw [hkeyword]; rfl), kept_append,
      kept_drop (by rw [hthen]; rfl), kept_append, kept_drop (by rw [helse]; rfl), kept_append,
      kept_drop (by rw [hend]; rfl), kept_append, hstatements, hothers]
    simp only [List.map_cons, List.map_nil, List.sum_cons, List.sum_nil, Node.words_phrase, kept_nil,
      hcondition]
    abel
  | @IsStatement.ifLine _ keyword before guard breaks body after skipped condition statements
      hkeyword hguard hbreaks hbreak hbody hfull, hscanned => by
    have hbehind := hscanned.of_cons.of_append_right
    have hcondition := hguard.words_eq hscanned.of_cons.of_append_left
    have hstatements := hbody.kept_eq hbehind.of_append_right
    have hnone : kept breaks = 0 := kept_eq_zero fun t ht => by rw [hbreak t ht]; rfl
    rw [Node.words_branch (by rw [hkeyword]; rfl), kept_cons (by rw [hkeyword]; rfl), kept_append,
      kept_append, hnone, hstatements]
    simp only [List.map_cons, List.map_nil, List.sum_cons, List.sum_nil, Node.words_phrase,
      hcondition]
    abel

/-- The words of a block are those of its statements and those that are skipped. -/
theorem IsBlock.kept_eq {stop : BlockEnd} {before tokens after skipped : List Token}
    {statements : List Node} :
    IsBlock options stop before tokens after skipped statements → IsScanned tokens →
      kept tokens = (statements.map Node.words).sum + kept skipped
  | .finish _, _ => rfl
  | .newLine _ htoken hrest, hscanned => by
    rw [kept_drop (by rw [htoken]; rfl), hrest.kept_eq hscanned.of_cons]
  | .statement htokens hrest, hscanned => by
    rw [kept_append, htokens.kept_eq hscanned.of_append_left, hrest.kept_eq hscanned.of_append_right,
      List.map_cons, List.sum_cons, kept_append]
    abel
  | @IsBlock.skip _ _ token _ rest _ skipped statements _ _ _ hrest, hscanned => by
    rw [kept_cons_eq token rest, hrest.kept_eq hscanned.of_cons, kept_cons_eq token skipped]
    abel

end

mutual

theorem IsStatement.skipped_sublist {before tokens after skipped : List Token} {tree : Node} :
    IsStatement options before tokens after skipped tree → skipped.Sublist tokens
  | .simple _ => List.nil_sublist _
  | .ifThen _ _ _ hbody _ _ => by
    apply List.Sublist.cons
    apply List.sublist_append_of_sublist_right
    apply List.Sublist.cons
    exact List.sublist_append_of_sublist_left hbody.skipped_sublist
  | .ifThenElse _ _ _ hbody _ _ halternative _ _ => by
    apply List.Sublist.cons
    apply List.sublist_append_of_sublist_right
    apply List.Sublist.cons
    apply hbody.skipped_sublist.append
    apply List.Sublist.cons
    exact List.sublist_append_of_sublist_left halternative.skipped_sublist
  | .ifLine _ _ _ _ hbody _ => by
    apply List.Sublist.cons
    apply List.sublist_append_of_sublist_right
    exact List.sublist_append_of_sublist_right hbody.skipped_sublist

/-- What is skipped are tokens of the block, in their order. -/
theorem IsBlock.skipped_sublist {stop : BlockEnd} {before tokens after skipped : List Token}
    {statements : List Node} :
    IsBlock options stop before tokens after skipped statements → skipped.Sublist tokens
  | .finish _ => List.nil_sublist _
  | .newLine _ _ hrest => hrest.skipped_sublist.cons _
  | .statement htokens hrest => htokens.skipped_sublist.append hrest.skipped_sublist
  | .skip _ _ _ hrest => hrest.skipped_sublist.cons_cons _

end

/-! ### Main result -/

/-- Whatever text is compiled, under whatever options, the words among its tokens are those of the
    tree and those that are skipped, and there is one note for each token that is skipped. -/
theorem compile_conserves (options : ReadOptions) (source : String) (tokens : List Token)
    (compilation : Compilation) (htokens : tokenize source = .ok tokens)
    (h : compile options source = .ok compilation) :
    ∃ skipped, skipped.Sublist tokens ∧
      compilation.diagnostics = skipped.map Diagnostic.ofSkipped ∧
      kept tokens = compilation.root.words + kept skipped := by
  obtain ⟨body, skipped, statements, hcompiled, rfl⟩ := compile_eq_ok_iff.1 h
  obtain rfl := Except.ok.inj (htokens.symm.trans hcompiled.tokens)
  refine ⟨skipped, ?_, rfl, ?_⟩
  · exact hcompiled.block.skipped_sublist.trans (List.sublist_append_left ..)
  · have hroot : (programTree statements).words = (statements.map Node.words).sum := by
      rw [programTree, Node.words_mk, if_neg nofun, zero_add]
    rw [kept_append, hcompiled.block.kept_eq hcompiled.isScanned, kept_drop rfl, kept_nil, add_zero,
      hroot]

/-- In `5 DISP A`, the number is skipped. -/
theorem compile_conserves_skipped :
    ∃ skipped, skipped.Sublist
        [⟨.literal .int, some "5", 1⟩, ⟨.keyword .disp, none, 1⟩, ⟨.var .scalar, some "A", 1⟩,
          ⟨.endOfFile, none, 1⟩] ∧
      [Diagnostic.mk 1 "skipped unexpected token INT_LIT:5"] = skipped.map Diagnostic.ofSkipped ∧
      kept [⟨.literal .int, some "5", 1⟩, ⟨.keyword .disp, none, 1⟩, ⟨.var .scalar, some "A", 1⟩,
          ⟨.endOfFile, none, 1⟩] =
        (Node.mk (.plain (.phrase .prog) 0) none
          [.branch ⟨.keyword .disp, none, 1⟩ [.leaf ⟨.var .scalar, some "A", 1⟩]]).words +
        kept skipped :=
  compile_conserves .default "5 DISP A" _ ⟨_, _⟩ (by cbv) (by cbv)

end CalcLang
