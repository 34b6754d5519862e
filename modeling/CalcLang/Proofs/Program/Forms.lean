import CalcLang.Proofs.Program.Append

/-! # The two forms of a conditional

    A conditional in line form has a body that ends where its line does.  The same body between `THEN`
    and `END` makes the same tree:

    * `IsBlock.closed`: a body in line form is one in block form, with the line breaks behind it.
    * `IsStatement.blockForm`: a conditional in line form, put into block form.
    * `IsBlock.only_conditional`: a program of one conditional is the conditional and line breaks.
    * `compile_blockForm`: what is compiled in line form is compiled in block form, with the same
      tree. -/

namespace CalcLang

variable {options : ReadOptions} {stop : BlockEnd} {tree node condition : Node}
  {keyword thenWord lineBreak firstBreak lastBreak endWord token token' : Token}
  {before guard guard' breaks body trailing after rest rest' more tokens skipped : List Token}
  {statements : List Node}

/-! ### The end of the condition -/

/-- A token that ends the condition of a conditional. -/
def Token.endsGuard (token : Token) : Bool :=
  token.kind.endsLine || token.kind == .keyword .thenWord

theorem Token.endsGuard_eq_false : token.endsGuard = false ↔
    token.kind.endsLine = false ∧ token.kind ≠ .keyword .thenWord := by
  simp [endsGuard]

theorem Token.endsGuard_of_lineBreak (h : token.kind = .lineBreak) : token.endsGuard = true := by
  rw [endsGuard, h]
  rfl

theorem Token.endsGuard_of_thenWord (h : token.kind = .keyword .thenWord) :
    token.endsGuard = true := by
  rw [endsGuard, h]
  rfl

theorem IsGuard.endsGuard_eq_false (h : IsGuard options guard condition) :
    ∀ t ∈ guard, t.endsGuard = false :=
  fun t ht => Token.endsGuard_eq_false.2 ⟨h.line t ht, h.others t ht⟩

theorem takeWhile_endsGuard (hguard : ∀ t ∈ guard, t.endsGuard = false)
    (htoken : token.endsGuard = true) :
    (guard ++ token :: rest).takeWhile (!·.endsGuard) = guard := by
  rw [List.takeWhile_append_of_pos, List.takeWhile_cons_of_neg, List.append_nil]
  · simp [htoken]
  · intro t ht
    rw [hguard t ht]
    rfl

/-- There is one condition at most that some tokens start with. -/
theorem guard_unique (hguard : ∀ t ∈ guard, t.endsGuard = false)
    (hguard' : ∀ t ∈ guard', t.endsGuard = false) (htoken : token.endsGuard = true)
    (htoken' : token'.endsGuard = true)
    (h : guard ++ token :: rest = guard' ++ token' :: rest') :
    guard = guard' ∧ token = token' ∧ rest = rest' := by
  have hcut : (guard ++ token :: rest).takeWhile (!·.endsGuard) = guard :=
    takeWhile_endsGuard hguard htoken
  rw [h, takeWhile_endsGuard hguard' htoken'] at hcut
  obtain rfl := hcut
  exact ⟨rfl, List.cons.inj (List.append_cancel_left h)⟩

/-! ### The body -/

/-- A body in line form is one in block form, with the line breaks behind it, if `END` is next.  Only
    the place where it ends is another one, so its statements are taken over as they are. -/
theorem IsBlock.closed {before tokens skipped : List Token} {statements : List Node}
    (hbreaks : AreBreaks breaks) (hend : endWord.kind = .keyword .endWord) :
    IsBlock options .line before tokens (breaks ++ endWord :: more) skipped statements →
      IsBlock options .keyword before (tokens ++ breaks) (endWord :: more) skipped statements
  | .finish _ => by
    have hfinish : IsBlock options .keyword (before ++ breaks) [] (endWord :: more) [] [] :=
      .finish (.inl ⟨nofun, .inl hend⟩)
    have hstop : BlockEnd.keyword ≠ .line := nofun
    have hbehind := IsBlock.after_breaks hstop hbreaks hfinish
    rw [List.append_nil] at hbehind
    exact hbehind
  | .newLine hstop _ _ => absurd rfl hstop
  | .statement htokens hrest => by
    rw [List.append_assoc]
    refine .statement ?_ (hrest.closed hbreaks hend)
    rw [List.append_assoc]
    exact htokens
  | @IsBlock.skip _ _ token _ rest _ _ _ hpolicy hopen hstray hrest => by
    -- A body in line form ends wherever one in block form does.
    have hopen' : ¬ BlockEnd.keyword.EndsBefore (token :: ((rest ++ breaks) ++ endWord :: more)) := by
      rintro (⟨-, hword⟩ | ⟨hline, -⟩)
      · exact hopen (.inl ⟨nofun, hword⟩)
      · cases hline
    rw [← List.append_assoc] at hstray
    exact .skip hpolicy hopen' hstray (hrest.closed hbreaks hend)

/-- The body of a conditional in line form, between `THEN` and `END` on lines of its own. -/
theorem IsBlock.between (thenWord : Token) (after : List Token)
    (hfirst : firstBreak.kind = .lineBreak) (hlast : lastBreak.kind = .lineBreak)
    (hend : endWord.kind = .keyword .endWord) (hbreaks : AreBreaks (token :: breaks))
    (htrailing : AreBreaks trailing)
    (h : IsBlock options .line (before ++ token :: breaks) body trailing skipped statements) :
    IsBlock options .keyword (before ++ [thenWord])
      (firstBreak :: (breaks ++ (body ++ trailing) ++ [lastBreak])) (endWord :: after) skipped
      statements := by
  -- First the end of the body is moved, then its start.
  have hbefore : IsBlock options .line (before ++ token :: breaks) body
      ((trailing ++ [lastBreak]) ++ endWord :: after) skipped statements := by
    rw [List.append_assoc]
    exact h.before_break hlast (BlockEnd.endsBefore_before_break hlast h.endsBefore)
  have hlastBreak : AreBreaks [lastBreak] := .cons (beq_iff_eq.2 hlast) (List.forall_mem_nil _)
  have hclosed := hbefore.closed (htrailing.append hlastBreak) hend
  have hlead : AreBreaks (firstBreak :: breaks) :=
    .cons (beq_iff_eq.2 hfirst) (List.forall_mem_cons.1 hbreaks).2
  have hplace : OpensLine ((before ++ [thenWord]) ++ firstBreak :: breaks) ↔
      OpensLine (before ++ token :: breaks) :=
    iff_of_true (opensLine_of_areBreaks _ hlead (List.cons_ne_nil _ _))
      (opensLine_of_areBreaks _ hbreaks (List.cons_ne_nil _ _))
  have hmoved := hclosed.elsewhere hplace (noTitle_of_ne_nil (by simp))
  have hstop : BlockEnd.keyword ≠ .line := nofun
  have hbehind := IsBlock.after_breaks hstop hlead hmoved
  simpa using hbehind

/-! ### The statement -/

theorem IsSimple.kind_ne_ifWord (h : IsSimple options before tokens after tree) :
    tree.kind ≠ .keyword .ifWord := by
  intro hkind
  cases h with
  | @fixed keyword operands _ shape hshape hplace hfits =>
    rw [show keyword.kind = .keyword .ifWord from hkind] at hshape
    cases hshape
  | assignment _ harrow => cases harrow.symm.trans hkind
  | store _ hparts => cases hparts.arrow.symm.trans hkind

/-- A conditional whose condition is followed by a line break, with line breaks only behind its body,
    becomes one in block form. -/
theorem IsStatement.blockForm (after : List Token) (hbreak : lineBreak.kind = .lineBreak)
    (hthen : thenWord.kind = .keyword .thenWord) (hfirst : firstBreak.kind = .lineBreak)
    (hlast : lastBreak.kind = .lineBreak) (hend : endWord.kind = .keyword .endWord)
    (hguard : ∀ t ∈ guard, t.endsGuard = false) (htrailing : AreBreaks trailing)
    (hkind : tree.kind = .keyword .ifWord)
    (h : IsStatement options before tokens trailing skipped tree)
    (htokens : keyword :: (guard ++ lineBreak :: rest) = tokens ++ trailing) :
    IsStatement options before
      (keyword :: (guard ++ thenWord :: (firstBreak :: (rest ++ [lastBreak]) ++ [endWord]))) after
      skipped tree := by
  have hends := Token.endsGuard_of_lineBreak hbreak
  -- A condition before `THEN` would have to end at the line break.
  have hnoThen {guard' : List Token} {word : Token} {rest' : List Token} {condition : Node}
      (hguard' : IsGuard options guard' condition) (hword : word.kind = .keyword .thenWord) :
      guard ++ lineBreak :: rest ≠ guard' ++ word :: rest' := by
    intro hsame
    obtain ⟨-, rfl, -⟩ := guard_unique hguard hguard'.endsGuard_eq_false hends
      (Token.endsGuard_of_thenWord hword) hsame
    cases hbreak.symm.trans hword
  cases h with
  | simple h => exact absurd hkind h.kind_ne_ifWord
  | ifThen _ hguard' hthen' =>
    simp only [List.cons_append, List.append_assoc, List.cons.injEq] at htokens
    exact absurd htokens.2 (hnoThen hguard' hthen')
  | ifThenElse _ hguard' hthen' =>
    simp only [List.cons_append, List.append_assoc, List.cons.injEq] at htokens
    exact absurd htokens.2 (hnoThen hguard' hthen')
  | @ifLine _ _ _ breaks body _ _ _ _ hkeyword hguard' hsome hbreaks hbody hfull =>
    obtain ⟨first, breaks, rfl⟩ := List.exists_cons_of_ne_nil hsome
    have hareBreaks : AreBreaks (first :: breaks) := fun t ht => beq_iff_eq.2 (hbreaks t ht)
    simp only [List.cons_append, List.append_assoc, List.cons.injEq] at htokens
    obtain ⟨rfl, hrest⟩ := htokens
    have hends' := Token.endsGuard_of_lineBreak (hbreaks first (List.mem_cons_self ..))
    obtain ⟨rfl, rfl, rfl⟩ :=
      guard_unique hguard hguard'.endsGuard_eq_false hends hends' hrest
    rw [← List.cons_append, ← List.append_assoc] at hbody
    have hbetween := hbody.between thenWord after hfirst hlast hend hareBreaks htrailing
    refine .ifThen hkeyword hguard' hthen ?_ hfull hend
    simpa using hbetween

theorem IsStatement.isBlock (h : IsStatement options before tokens after skipped tree)
    (hends : stop.EndsBefore after) :
    IsBlock options stop before tokens after skipped [tree] := by
  have hblock : IsBlock options stop before (tokens ++ []) after (skipped ++ []) [tree] :=
    .statement h (.finish hends)
  rw [List.append_nil, List.append_nil] at hblock
  exact hblock

/-! ### Programs of one conditional -/

/-- A block without statements that skips nothing holds line breaks only. -/
theorem IsBlock.areBreaks {before tokens skipped : List Token} {statements : List Node}
    (hskipped : skipped = []) (hstatements : statements = []) :
    IsBlock options stop before tokens after skipped statements → AreBreaks tokens
  | .finish _ => List.forall_mem_nil _
  | .newLine _ htoken hrest =>
    .cons (beq_iff_eq.2 htoken) (hrest.areBreaks hskipped hstatements)
  | .statement _ _ => by cases hstatements
  | .skip _ _ _ _ => by cases hskipped

/-- A block that starts with `IF` and has one statement is this statement and line breaks. -/
theorem IsBlock.only_conditional (hkeyword : keyword.kind = .keyword .ifWord)
    (h : IsBlock options stop before tokens after skipped statements)
    (htokens : tokens = keyword :: rest) (hskipped : skipped = []) (hstatements : statements = [tree]) :
    ∃ first trailing, keyword :: rest = first ++ trailing ∧ AreBreaks trailing ∧
      IsStatement options before first (trailing ++ after) [] tree := by
  cases h with
  | finish => cases htokens
  | newLine _ htoken =>
    cases htokens
    cases hkeyword.symm.trans htoken
  | @statement _ _ first trailing _ _ _ _ _ hfirst hrest =>
    obtain ⟨rfl, rfl⟩ := List.append_eq_nil_iff.1 hskipped
    obtain ⟨rfl, rfl⟩ := List.cons.inj hstatements
    exact ⟨first, trailing, htokens.symm, hrest.areBreaks rfl rfl, hfirst⟩
  | skip => cases hskipped

/-! ### Main result -/

/-- No title is asked for if a program that starts with another word is compiled. -/
theorem hasTitle_of_hasTitle {last last' : Nat} (hkeyword : keyword.kind ≠ .keyword .program)
    (h : Session.HasTitle ⟨options, [], keyword :: rest, last, [], []⟩) :
    Session.HasTitle ⟨options, [], keyword :: rest', last', [], []⟩ := by
  intro hask
  have hstarts : Session.startsWithTitle ⟨options, [], keyword :: rest, last, [], []⟩ = true :=
    h hask
  cases rest <;> simp [Session.startsWithTitle, Session.tokens, hkeyword] at hstarts

theorem Kind.endsLine_eq_false {kind : Kind} (hbreak : kind ≠ .lineBreak)
    (hend : kind ≠ .endOfFile) : kind.endsLine = false := by
  cases kind with
  | lineBreak => exact absurd rfl hbreak
  | endOfFile => exact absurd rfl hend
  | _ => rfl

/-- If `IF`, a condition, a line break and any tokens are compiled without notes to a single
    conditional, then so are `IF`, the condition, `THEN`, a line break, these tokens, a line break and
    `END`.  The tree is the same, wherever the new tokens stand. -/
theorem compile_blockForm (options : ReadOptions)
    (keyword lineBreak ending thenWord firstBreak lastBreak endWord ending' : Token)
    (condition body : List Token) (root node : Node)
    (hkeyword : keyword.kind = .keyword .ifWord) (hbreak : lineBreak.kind = .lineBreak)
    (hending : ending.kind = .endOfFile) (hthen : thenWord.kind = .keyword .thenWord)
    (hfirst : firstBreak.kind = .lineBreak) (hlast : lastBreak.kind = .lineBreak)
    (hend : endWord.kind = .keyword .endWord) (hending' : ending'.kind = .endOfFile)
    (hcondition : ∀ t ∈ condition, t.kind ≠ .lineBreak ∧ t.kind ≠ .keyword .thenWord ∧
      t.kind ≠ .endOfFile)
    (h : (Session.ofTokens options
      (keyword :: (condition ++ lineBreak :: (body ++ [ending])))).compile.result = .ok ⟨root, []⟩)
    (hchildren : root.children = [node]) (hnode : node.kind = .keyword .ifWord) :
    (Session.ofTokens options (keyword :: (condition ++ thenWord :: firstBreak ::
      (body ++ [lastBreak, endWord, ending'])))).compile.result = .ok ⟨root, []⟩ := by
  have hline : keyword :: (condition ++ lineBreak :: (body ++ [ending])) =
      (keyword :: (condition ++ lineBreak :: body)) ++ [ending] := by simp
  have hblock : keyword :: (condition ++ thenWord :: firstBreak ::
        (body ++ [lastBreak, endWord, ending'])) =
      (keyword :: (condition ++ thenWord :: (firstBreak :: (body ++ [lastBreak]) ++ [endWord]))) ++
        [ending'] := by simp
  rw [hline, ofTokens_append options _ hending, compile_session_eq_ok_iff] at h
  rw [hblock, ofTokens_append options _ hending', compile_session_eq_ok_iff]
  obtain ⟨htitle, skipped, statements, hprogram, hcompilation⟩ := h
  obtain ⟨rfl, hnotes⟩ := Compilation.mk.inj hcompilation
  obtain rfl : statements = [node] := hchildren
  obtain ⟨first, trailing, htokens, htrailing, hstatement⟩ :=
    hprogram.only_conditional hkeyword rfl (List.map_eq_nil_iff.1 hnotes.symm) rfl
  have hguard : ∀ t ∈ condition, t.endsGuard = false := by
    intro t ht
    obtain ⟨hnoBreak, hnoThen, hnoEnd⟩ := hcondition t ht
    exact Token.endsGuard_eq_false.2 ⟨Kind.endsLine_eq_false hnoBreak hnoEnd, hnoThen⟩
  rw [List.append_nil] at hstatement
  have hform := hstatement.blockForm [] hbreak hthen hfirst hlast hend hguard htrailing hnode htokens
  exact ⟨hasTitle_of_hasTitle (by rw [hkeyword]; nofun) htitle, [], [node],
    hform.isBlock trivial, rfl⟩

/-- The body is another conditional in line form, with two statements on its line and a blank line
    behind it. -/
theorem compile_blockForm_nested :
    (Session.ofTokens .default
      [⟨.keyword .ifWord, none, 1⟩, ⟨.var .scalar, some "A", 1⟩, ⟨.comparison .equal, none, 1⟩,
        ⟨.literal .int, some "1", 1⟩, ⟨.keyword .thenWord, none, 9⟩, ⟨.lineBreak, none, 9⟩,
        ⟨.keyword .ifWord, none, 2⟩, ⟨.var .scalar, some "B", 2⟩, ⟨.comparison .less, none, 2⟩,
        ⟨.literal .int, some "2", 2⟩, ⟨.lineBreak, none, 2⟩, ⟨.keyword .disp, none, 3⟩,
        ⟨.var .scalar, some "A", 3⟩, ⟨.keyword .disp, none, 3⟩, ⟨.var .scalar, some "B", 3⟩,
        ⟨.lineBreak, none, 3⟩, ⟨.lineBreak, none, 9⟩, ⟨.keyword .endWord, none, 9⟩,
        ⟨.endOfFile, none, 9⟩]).compile.result =
      .ok ⟨⟨.plain (.phrase .prog) 0, none,
        [.branch ⟨.keyword .ifWord, none, 1⟩
          [.phrase .boolExpr 1 [.branch ⟨.comparison .equal, none, 1⟩
            [.leaf ⟨.var .scalar, some "A", 1⟩, .leaf ⟨.literal .int, some "1", 1⟩]],
          .phrase .block 1 [.branch ⟨.keyword .ifWord, none, 2⟩
            [.phrase .boolExpr 2 [.branch ⟨.comparison .less, none, 2⟩
              [.leaf ⟨.var .scalar, some "B", 2⟩, .leaf ⟨.literal .int, some "2", 2⟩]],
            .phrase .block 2 [.branch ⟨.keyword .disp, none, 3⟩ [.leaf ⟨.var .scalar, some "A", 3⟩],
              .branch ⟨.keyword .disp, none, 3⟩ [.leaf ⟨.var .scalar, some "B", 3⟩]]]]]]⟩, []⟩ :=
  compile_blockForm .default ⟨.keyword .ifWord, none, 1⟩ ⟨.lineBreak, none, 1⟩
    ⟨.endOfFile, none, 4⟩ ⟨.keyword .thenWord, none, 9⟩ ⟨.lineBreak, none, 9⟩ ⟨.lineBreak, none, 9⟩
    ⟨.keyword .endWord, none, 9⟩ ⟨.endOfFile, none, 9⟩
    [⟨.var .scalar, some "A", 1⟩, ⟨.comparison .equal, none, 1⟩, ⟨.literal .int, some "1", 1⟩]
    [⟨.keyword .ifWord, none, 2⟩, ⟨.var .scalar, some "B", 2⟩, ⟨.comparison .less, none, 2⟩,
      ⟨.literal .int, some "2", 2⟩, ⟨.lineBreak, none, 2⟩, ⟨.keyword .disp, none, 3⟩,
      ⟨.var .scalar, some "A", 3⟩, ⟨.keyword .disp, none, 3⟩, ⟨.var .scalar, some "B", 3⟩,
      ⟨.lineBreak, none, 3⟩]
    _ _ rfl rfl rfl rfl rfl rfl rfl rfl (by decide) (by cbv) rfl rfl

end CalcLang
