import CalcLang.Proofs.Program.Append
import CalcLang.Proofs.Program.Lines
import CalcLang.Proofs.Program.Policies

/-! # The title of a program

    A title is read at the very start of a text and nowhere else, and the tree is named after it:

    * `IsBlock.untitled`: no tree of a block holds the node of a title, unless the block starts with
      one.
    * `IsBlock.exists_title`: the block of a program that starts with one.
    * `IsBlock.of_options`: whether a title is required does not matter to a block.
    * `compile_title`: the name of a tree, its title and the first token of the text go together. -/

namespace CalcLang

variable {options options' : ReadOptions} {source : String} {stop : BlockEnd} {first : Token}
  {tree : Node} {span before tokens after skipped : List Token} {statements : List Node}

/-! ### No title inside -/

/-- No node of a tree is one of a title. -/
def Node.Untitled (node : Node) : Prop :=
  node.Everywhere (·.kind ≠ .keyword .program)

namespace Node

theorem untitled_of_isSpanKind (h : tree.Everywhere (·.kind.isSpanKind = true)) :
    tree.Untitled := by
  refine h.mono fun part hpart hkind => ?_
  rw [hkind] at hpart
  cases hpart

theorem untitled_branch {token : Token} {children : List Node}
    (htoken : token.kind ≠ .keyword .program) (hchildren : ∀ child ∈ children, child.Untitled) :
    (branch token children).Untitled :=
  everywhere_branch.2 ⟨htoken, hchildren⟩

theorem untitled_leaf {token : Token} (htoken : token.kind ≠ .keyword .program) :
    (leaf token).Untitled :=
  untitled_branch htoken nofun

theorem untitled_assignment {arrow target : Token} (harrow : arrow.kind = .assign)
    (htarget : target.kind.isVariable = true) (htree : tree.Untitled) :
    (branch arrow [leaf target, tree]).Untitled := by
  apply untitled_branch
  · rw [harrow]
    nofun
  · rw [List.forall_mem_cons, List.forall_mem_singleton]
    refine ⟨untitled_leaf ?_, htree⟩
    intro hkind
    rw [hkind] at htarget
    cases htarget

/-- A conditional without a title in its condition and in its statements. -/
theorem untitled_conditional {keyword : Token} {condition : Node} {blocks : List Node}
    (hkeyword : keyword.kind = .keyword .ifWord) (hcondition : condition.Untitled)
    (hblocks : ∀ block ∈ blocks, block.Untitled) :
    (branch keyword (condition :: blocks)).Untitled := by
  apply untitled_branch
  · rw [hkeyword]
    nofun
  · exact List.forall_mem_cons.2 ⟨hcondition, hblocks⟩

theorem untitled_block (line : Nat) (hstatements : ∀ statement ∈ statements, statement.Untitled) :
    (phrase .block line statements).Untitled :=
  untitled_branch nofun hstatements

theorem Untitled.kind_ne (h : tree.Untitled) : tree.kind ≠ .keyword .program := by
  obtain ⟨token, name, children⟩ := tree
  apply h
  rw [parts_mk]
  exact List.mem_cons_self

/-- Trees without a title have no node of one. -/
theorem countP_untitled (h : ∀ statement ∈ statements, statement.Untitled) :
    (statements.flatMap parts).countP (·.kind == .keyword .program) = 0 := by
  rw [List.countP_eq_zero]
  intro part hpart hkind
  obtain ⟨statement, hstatement, hpart⟩ := List.mem_flatMap.1 hpart
  exact h statement hstatement part hpart (eq_of_beq hkind)

end Node

theorem IsSimple.untitled (h : IsSimple options before tokens after tree)
    (hscanned : IsScanned tokens) (hfirst : NoTitle before tokens) : tree.Untitled := by
  have hwords := h.onLine.isLine hscanned
  have hexpression {span : List Token} {expression : Node} (hspan : IsLine span)
      (hread : (readExpression options span).result = .ok expression) : expression.Untitled :=
    Node.untitled_of_isSpanKind (isTerm_of_read hspan hread).everywhere_isSpanKind
  cases h with
  | @fixed keyword operands _ shape hshape hplace hfits =>
    have hoperands := hfits.forall (Kind.isOperandWord_of_operands hshape)
    apply Node.untitled_branch
    · -- A title would be at the start, where there is none.
      intro hkind
      rw [hkind] at hplace
      exact hfirst hplace keyword rfl hkind
    · rw [List.forall_mem_map]
      intro t ht
      apply Node.untitled_leaf
      intro hkind
      have hword := hoperands t ht
      rw [hkind] at hword
      cases hword
  | assignment htarget harrow hspan hline hends hread =>
    exact Node.untitled_assignment harrow htarget (hexpression hwords.of_cons.of_cons hread)
  | store hopens hparts hlone hline hends hread =>
    obtain rfl := hparts.parts
    exact Node.untitled_assignment hparts.arrow hparts.target
      (hexpression hwords.of_append_left hread)

theorem IsGuard.untitled {condition : Node} (h : IsGuard options span condition)
    (hscanned : IsScanned span) : condition.Untitled :=
  Node.untitled_of_isSpanKind (h.isConditionTree hscanned).everywhere_isSpanKind

-- Only the first token of a text can be the keyword of a title.  Everything but the statement that
-- starts there has tokens before it, the bodies of conditionals as well.
mutual

theorem IsStatement.untitled {before tokens after skipped : List Token} {tree : Node} :
    IsStatement options before tokens after skipped tree → IsScanned tokens →
      NoTitle before tokens → tree.Untitled
  | .simple h, hscanned, hfirst => h.untitled hscanned hfirst
  | .ifThen hkeyword hguard _ hbody _ _, hscanned, _ => by
    have hbehind := hscanned.of_cons.of_append_right.of_cons
    have hstatements := hbody.untitled hbehind.of_append_left (noTitle_of_ne_nil (by simp))
    refine Node.untitled_conditional hkeyword (hguard.untitled hscanned.of_cons.of_append_left) ?_
    rw [List.forall_mem_singleton]
    exact Node.untitled_block _ hstatements
  | .ifThenElse hkeyword hguard _ hbody _ _ halternative _ _, hscanned, _ => by
    have hbehind := hscanned.of_cons.of_append_right.of_cons
    have hstatements := hbody.untitled hbehind.of_append_left (noTitle_of_ne_nil (by simp))
    have hothers := halternative.untitled hbehind.of_append_right.of_cons.of_append_left
      (noTitle_of_ne_nil (by simp))
    refine Node.untitled_conditional hkeyword (hguard.untitled hscanned.of_cons.of_append_left) ?_
    rw [List.forall_mem_cons, List.forall_mem_singleton]
    exact ⟨Node.untitled_block _ hstatements, Node.untitled_block _ hothers⟩
  | .ifLine hkeyword hguard _ _ hbody _, hscanned, _ => by
    have hbehind := hscanned.of_cons.of_append_right
    have hstatements := hbody.untitled hbehind.of_append_right (noTitle_of_ne_nil (by simp))
    refine Node.untitled_conditional hkeyword (hguard.untitled hscanned.of_cons.of_append_left) ?_
    rw [List.forall_mem_singleton]
    exact Node.untitled_block _ hstatements

/-- No tree of a block holds a title, unless the block starts with one. -/
theorem IsBlock.untitled {stop : BlockEnd} {before tokens after skipped : List Token}
    {statements : List Node} :
    IsBlock options stop before tokens after skipped statements → IsScanned tokens →
      NoTitle before tokens → ∀ statement ∈ statements, statement.Untitled
  | .finish _, _, _ => nofun
  | .newLine _ _ hrest, hscanned, _ =>
    hrest.untitled hscanned.of_cons (noTitle_of_ne_nil (by simp))
  | .statement htokens hrest, hscanned, hfirst =>
    List.forall_mem_cons.2
      ⟨htokens.untitled hscanned.of_append_left (htokens.noTitle hfirst),
        hrest.untitled hscanned.of_append_right (noTitle_of_ne_nil htokens.append_ne_nil)⟩
  | .skip _ _ _ hrest, hscanned, _ =>
    hrest.untitled hscanned.of_cons (noTitle_of_ne_nil (by simp))

end

/-! ### A title at the start -/

/-- A statement that starts with the keyword of a title is one. -/
theorem IsStatement.exists_title {more : List Token}
    (h : IsStatement options before (first :: more) after skipped tree)
    (hfirst : first.kind = .keyword .program) :
    ∃ text, more = [text] ∧ text.kind = .literal .string ∧ skipped = [] ∧
      tree = .branch first [.leaf text] := by
  generalize htokens : first :: more = tokens at h
  have hother {keyword : Token} {behind : List Token} (hspan : first :: more = keyword :: behind)
      (hkind : keyword.kind = .keyword .ifWord) : False := by
    rw [← (List.cons.inj hspan).1, hfirst] at hkind
    cases hkind
  cases h with
  | simple h =>
    cases h with
    | @fixed keyword operands _ shape hshape hplace hfits =>
      obtain ⟨rfl, rfl⟩ := List.cons.inj htokens
      rw [hfirst] at hshape
      cases hshape
      -- The shape asks for a single operand, which is a string.
      match more, hfits with
      | [text], hfits => exact ⟨text, rfl, eq_of_beq hfits.1, rfl, rfl⟩
    | assignment htarget =>
      rw [← (List.cons.inj htokens).1, hfirst] at htarget
      cases htarget
    | store hopens hparts hlone hline hends hread =>
      obtain ⟨head, rest, rfl, hhead⟩ := hparts.exists_head hread
      rw [hparts.parts] at htokens
      rw [← (List.cons.inj htokens).1, hfirst] at hhead
      cases hhead
  | ifThen hkeyword => exact (hother htokens hkeyword).elim
  | ifThenElse hkeyword => exact (hother htokens hkeyword).elim
  | ifLine hkeyword => exact (hother htokens hkeyword).elim

/-- A block that starts with the keyword of a title starts with the title. -/
theorem IsBlock.exists_title {more : List Token}
    (h : IsBlock options stop before (first :: more) after skipped statements)
    (hfirst : first.kind = .keyword .program) :
    ∃ text rest later, more = text :: rest ∧ text.kind = .literal .string ∧
      statements = .branch first [.leaf text] :: later ∧
      IsBlock options stop (before ++ [first, text]) rest after skipped later := by
  generalize htokens : first :: more = tokens at h
  cases h with
  | finish => cases htokens
  | newLine hstop htoken =>
    rw [← (List.cons.inj htokens).1, hfirst] at htoken
    cases htoken
  | @statement _ _ here rest _ _ _ _ later hhere hrest =>
    obtain ⟨head, behind, rfl, -⟩ := hhere.exists_head
    obtain ⟨rfl, rfl⟩ := List.cons.inj htokens
    obtain ⟨text, rfl, htext, rfl, rfl⟩ := hhere.exists_title hfirst
    exact ⟨text, rest, later, rfl, htext, rfl, hrest⟩
  | skip hpolicy hopen hstray =>
    have hnone := hstray.kind.operands
    rw [← (List.cons.inj htokens).1, hfirst] at hnone
    cases hnone

/-- A text in quotes is what it is without them, in quotes. -/
theorem eq_quoted_trimQuotes {value : String} {inner : List Char}
    (hvalue : value.toList = '"' :: inner ++ ['"']) (hinner : ∀ c ∈ inner, c ≠ '"') :
    value = "\"" ++ trimQuotes value ++ "\"" := by
  have hkeep (part : List Char) (hpart : ∀ c ∈ part, c ≠ '"') :
      part.dropWhile (· == '"') = part := by
    rw [List.dropWhile_eq_self_iff]
    intro hlength hquote
    exact hpart _ (List.getElem_mem hlength) (eq_of_beq hquote)
  have hreverse := hkeep inner.reverse fun c hc => hinner c (List.mem_reverse.1 hc)
  have htrim : trimQuotes value = String.ofList inner := by
    unfold trimQuotes
    rw [hvalue, List.cons_append, List.dropWhile_cons_of_pos rfl, List.dropWhile_append,
      hkeep inner hinner]
    cases inner with
    | nil => rfl
    | cons c rest =>
      rw [if_neg (by simp), List.reverse_append, List.reverse_singleton, List.singleton_append,
        List.dropWhile_cons_of_pos rfl, hreverse, List.reverse_reverse]
  have htext : (String.ofList inner).toList = inner := String.toList_ofList
  apply String.toList_injective
  rw [htrim, hvalue, String.toList_append, String.toList_append, htext]
  rfl

/-! ### The options -/

/-- Options that differ at most in whether a title is required. -/
structure ReadOptions.ReadsLike (options options' : ReadOptions) : Prop where
  precedence : options.precedence = options'.precedence
  unknownStatements : options.unknownStatements = options'.unknownStatements
  debug : options.debug = options'.debug

theorem IsSimple.of_options (hlike : options.ReadsLike options')
    (h : IsSimple options before tokens after tree) :
    IsSimple options' before tokens after tree := by
  cases h with
  | fixed hshape hplace hfits => exact .fixed hshape hplace hfits
  | assignment htarget harrow hspan hline hends hread =>
    rw [readExpression_congr hlike.precedence hlike.debug] at hread
    exact .assignment htarget harrow hspan hline hends hread
  | store hopens hparts hlone hline hends hread =>
    rw [readExpression_congr hlike.precedence hlike.debug] at hread
    exact .store hopens hparts hlone hline hends hread

theorem IsGuard.of_options {condition : Node} (hlike : options.ReadsLike options')
    (h : IsGuard options span condition) : IsGuard options' span condition := by
  have hread := h.read
  rw [readCondition_congr hlike.precedence hlike.debug] at hread
  exact ⟨h.nonempty, h.line, h.others, hread⟩

mutual

theorem IsStatement.of_options {before tokens after skipped : List Token} {tree : Node}
    (hlike : options.ReadsLike options') :
    IsStatement options before tokens after skipped tree →
      IsStatement options' before tokens after skipped tree
  | .simple h => .simple (h.of_options hlike)
  | .ifThen hkeyword hguard hthen hbody hfull hend =>
    .ifThen hkeyword (hguard.of_options hlike) hthen (hbody.of_options hlike) hfull hend
  | .ifThenElse hkeyword hguard hthen hbody hfull helse halternative hfull' hend =>
    .ifThenElse hkeyword (hguard.of_options hlike) hthen (hbody.of_options hlike) hfull helse
      (halternative.of_options hlike) hfull' hend
  | .ifLine hkeyword hguard hbreaks hareBreaks hbody hfull =>
    .ifLine hkeyword (hguard.of_options hlike) hbreaks hareBreaks (hbody.of_options hlike) hfull

/-- Whether a title is required does not matter to a block. -/
theorem IsBlock.of_options {stop : BlockEnd} {before tokens after skipped : List Token}
    {statements : List Node} (hlike : options.ReadsLike options') :
    IsBlock options stop before tokens after skipped statements →
      IsBlock options' stop before tokens after skipped statements
  | .finish hends => .finish hends
  | .newLine hstop htoken hrest => .newLine hstop htoken (hrest.of_options hlike)
  | .statement htokens hrest => .statement (htokens.of_options hlike) (hrest.of_options hlike)
  | .skip hpolicy hopen hstray hrest => by
    rw [hlike.unknownStatements] at hpolicy
    exact .skip hpolicy hopen hstray (hrest.of_options hlike)

end

/-! ### Main result -/

/-- What the name of a tree has to do with its nodes and with the tokens it was read from. -/
structure Node.IsTitledBy (root : Node) (tokens : List Token) : Prop where
  /-- The tree has a name if and only if the text starts with the keyword of a title. -/
  named : root.name.isSome = true ↔ ∃ first ∈ tokens.head?, first.kind = .keyword .program
  /-- Then the first statement is the title, whose text is the name in quotes. -/
  title : ∀ name, root.name = some name → ∃ keyword text more later,
    tokens = keyword :: text :: more ∧ keyword.kind = .keyword .program ∧
      text.kind = .literal .string ∧ text.value = some ("\"" ++ name ++ "\"") ∧
      root.children = .branch keyword [.leaf text] :: later
  /-- There is no other title anywhere. -/
  only : root.parts.countP (·.kind == .keyword .program) = if root.name.isSome then 1 else 0

theorem parts_programTree (statements : List Node) : (programTree statements).parts =
    programTree statements :: statements.flatMap Node.parts :=
  Node.parts_mk _ _ _

theorem countP_programTree (statements : List Node) :
    (programTree statements).parts.countP (·.kind == .keyword .program) =
      (statements.flatMap Node.parts).countP (·.kind == .keyword .program) := by
  rw [parts_programTree]
  exact List.countP_cons_of_neg nofun

section Titles

variable {body : List Token} {ending : Token}
  (hblock : IsBlock options .program [] body [] skipped statements) (hscanned : IsScanned body)

include hblock hscanned

/-- The tree of a text that does not start with a title. -/
theorem isTitledBy_of_noTitle (hending : ending.kind = .endOfFile) (hfirst : NoTitle [] body) :
    (programTree statements).IsTitledBy (body ++ [ending]) := by
  have huntitled := hblock.untitled hscanned hfirst
  have hname : title? ([] ++ statements) = title? [] :=
    title?_append fun tree htree => (huntitled tree htree).kind_ne
  have hname : (programTree statements).name = none := hname
  refine ⟨?_, ?_, ?_⟩
  · rw [hname]
    refine ⟨nofun, ?_⟩
    rintro ⟨first, hhead, hkind⟩
    cases body with
    | nil =>
      cases hhead
      rw [hending] at hkind
      cases hkind
    | cons head rest => exact absurd hkind (hfirst rfl first hhead)
  · intro name hsome
    rw [hname] at hsome
    cases hsome
  · rw [countP_programTree, Node.countP_untitled huntitled, hname]
    rfl

/-- The tree of a text that starts with a title. -/
theorem isTitledBy_of_title {more : List Token} (hbody : body = first :: more)
    (hfirst : first.kind = .keyword .program)
    (hreadable : ∀ t ∈ body, t = .lineBreak t.line ∨ t.IsReadable) :
    (programTree statements).IsTitledBy (body ++ [ending]) := by
  rw [hbody] at hblock hscanned hreadable ⊢
  obtain ⟨text, rest, later, rfl, htext, rfl, hrest⟩ := hblock.exists_title hfirst
  -- The text of the title is a string, so it is something in quotes.
  have hread : text.IsReadable := by
    rcases hreadable text (by simp) with hbreak | hread
    · rw [hbreak] at htext
      cases htext
    · exact hread
  have hvalue : text.value = some text.sourceText := by
    rw [hread.value, htext]
    rfl
  obtain ⟨inner, hinner, hplain⟩ :=
    Word.exists_inner_of_string hread.spelling (by rw [hread.kind, htext])
  have hquoted := eq_quoted_trimQuotes hinner fun c hc => (hplain c hc).1
  have hname : (programTree (.branch first [.leaf text] :: later)).name =
      some (trimQuotes text.sourceText) := by
    have hkind : (Node.branch first [.leaf text]).kind = .keyword .program := hfirst
    show (if (Node.branch first [.leaf text]).kind = .keyword .program then
      text.value.map trimQuotes else none) = _
    rw [if_pos hkind, hvalue]
    rfl
  have hlater := hrest.untitled hscanned.of_cons.of_cons (noTitle_of_ne_nil (by simp))
  refine ⟨?_, ?_, ?_⟩
  · rw [hname]
    exact ⟨fun _ => ⟨first, rfl, hfirst⟩, fun _ => rfl⟩
  · intro name hsome
    rw [hname] at hsome
    cases hsome
    exact ⟨first, text, _, later, rfl, hfirst, htext, by rw [hvalue, ← hquoted], rfl⟩
  · have hkeyword : (Node.branch first [.leaf text]).kind = .keyword .program := hfirst
    have hleaf : (Node.leaf text).kind = .literal .string := htext
    have hone : (Node.branch first [.leaf text]).parts.countP (·.kind == .keyword .program) = 1 := by
      rw [Node.parts_branch, List.flatMap_singleton, Node.parts_leaf]
      simp only [List.countP_cons, hkeyword, hleaf, List.countP_nil]
      rfl
    rw [countP_programTree, hname, List.flatMap_cons, List.countP_append, hone,
      Node.countP_untitled hlater]
    rfl

end Titles

theorem exists_keyword_of_startsWithTitle {body : List Token} {last : Nat}
    (h : Session.startsWithTitle ⟨options, [], body, last, [], []⟩ = true) :
    ∃ first more, body = first :: more ∧ first.kind = .keyword .program := by
  unfold Session.startsWithTitle at h
  split at h
  · next first second rest htokens =>
    rw [Bool.and_eq_true] at h
    cases body with
    | nil => cases htokens
    | cons head more =>
      obtain ⟨rfl, -⟩ := List.cons.inj htokens
      exact ⟨head, more, rfl, eq_of_beq h.1⟩
  · cases h

/-- Whatever text is compiled, its tree has a name if and only if the text starts with a title.  The
    name is the text of the title, which is the first statement and the only title of the tree.  If a
    title is required, there is one, and the tree is the same if it is not. -/
theorem compile_title (options : ReadOptions) (source : String) (compilation : Compilation)
    (h : compile options source = .ok compilation) :
    (∃ tokens, tokenize source = .ok tokens ∧ compilation.root.IsTitledBy tokens) ∧
      (options.requireTitle = true → compilation.root.name.isSome = true ∧
        compile { options with requireTitle := false } source = .ok compilation) := by
  obtain ⟨body, skipped, statements, hcompiled, rfl⟩ := compile_eq_ok_iff.1 h
  have htitled : (programTree statements).IsTitledBy
      (body ++ [.endOfFile (lastLine source.toList)]) := by
    by_cases hfirst : ∃ first more, body = first :: more ∧ first.kind = .keyword .program
    · obtain ⟨first, more, hbody, hkind⟩ := hfirst
      exact isTitledBy_of_title hcompiled.block hcompiled.isScanned hbody hkind
        (isReadable_of_tokenize hcompiled.tokens)
    · refine isTitledBy_of_noTitle hcompiled.block hcompiled.isScanned rfl fun _ first hhead => ?_
      obtain ⟨more, hbody⟩ := List.head?_eq_some_iff.1 hhead
      exact fun hkind => hfirst ⟨first, more, hbody, hkind⟩
  refine ⟨⟨_, hcompiled.tokens, htitled⟩, ?_⟩
  intro hrequired
  obtain ⟨first, more, rfl, hkind⟩ :=
    exists_keyword_of_startsWithTitle (hcompiled.title hrequired)
  refine ⟨htitled.named.2 ⟨first, rfl, hkind⟩, ?_⟩
  have hlike : options.ReadsLike { options with requireTitle := false } := ⟨rfl, rfl, rfl⟩
  exact compile_eq_ok_iff.2
    ⟨_, skipped, statements, ⟨hcompiled.tokens, nofun, hcompiled.block.of_options hlike⟩, rfl⟩

/-- A program with a title and a conditional, under options that require the title. -/
theorem compile_title_strict :
    (∃ tokens, tokenize "PROGRAM \"One\"\nIF A == 1 THEN\nDISP A\nEND" = .ok tokens ∧
      Node.IsTitledBy ⟨.plain (.phrase .prog) 0, some "One",
        [.branch ⟨.keyword .program, none, 1⟩ [.leaf ⟨.literal .string, some "\"One\"", 1⟩],
          .branch ⟨.keyword .ifWord, none, 2⟩
            [.phrase .boolExpr 2 [.branch ⟨.comparison .equal, none, 2⟩
              [.leaf ⟨.var .scalar, some "A", 2⟩, .leaf ⟨.literal .int, some "1", 2⟩]],
            .phrase .block 2
              [.branch ⟨.keyword .disp, none, 3⟩ [.leaf ⟨.var .scalar, some "A", 3⟩]]]]⟩ tokens) ∧
      ∃ compilation, compile { ReadOptions.strict with requireTitle := false }
        "PROGRAM \"One\"\nIF A == 1 THEN\nDISP A\nEND" = .ok compilation ∧
          compilation.root.name = some "One" := by
  have hcompiled : compile .strict "PROGRAM \"One\"\nIF A == 1 THEN\nDISP A\nEND" = .ok
      ⟨⟨.plain (.phrase .prog) 0, some "One",
        [.branch ⟨.keyword .program, none, 1⟩ [.leaf ⟨.literal .string, some "\"One\"", 1⟩],
          .branch ⟨.keyword .ifWord, none, 2⟩
            [.phrase .boolExpr 2 [.branch ⟨.comparison .equal, none, 2⟩
              [.leaf ⟨.var .scalar, some "A", 2⟩, .leaf ⟨.literal .int, some "1", 2⟩]],
            .phrase .block 2
              [.branch ⟨.keyword .disp, none, 3⟩ [.leaf ⟨.var .scalar, some "A", 3⟩]]]]⟩, []⟩ := by
    cbv
  obtain ⟨htitled, hsame⟩ := compile_title .strict _ _ hcompiled
  exact ⟨htitled, _, (hsame rfl).2, rfl⟩

end CalcLang
