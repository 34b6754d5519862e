import CalcLang.Proofs.Program.Compilation
import CalcLang.Proofs.Program.Relining
import Mathlib

/-! # Programs one after the other

    A line break ends whatever the line before it is part of, so two programs with a line break
    between them are one program:

    * `IsBlock.before_break`: a line break and more behind a block do not change it.
    * `IsBlock.elsewhere`: neither does what stands before it, but for whether a line ends there and
      for titles.
    * `IsBlock.append`: the statements of two blocks in a row.
    * `compile_append`: two texts that are compiled one after the other. -/

namespace CalcLang

variable {options : ReadOptions} {stop : BlockEnd} {token lineBreak : Token} {tree : Node}
  {before tokens after more skipped skipped' : List Token} {statements statements' : List Node}

/-! ### Before a line break -/

section BeforeBreak

variable (hbreak : lineBreak.kind = .lineBreak)

include hbreak

theorem EndsLine.before_break (h : EndsLine after) : EndsLine (after ++ lineBreak :: more) := by
  cases after with
  | nil =>
    intro t ht
    cases ht
    rw [hbreak]
    rfl
  | cons first rest => exact h

theorem takeWhile_before_break (line : List Token) :
    (line ++ lineBreak :: more).takeWhile (!·.kind.endsLine) =
      line.takeWhile (!·.kind.endsLine) := by
  induction line with
  | nil =>
    rw [List.nil_append, List.takeWhile_cons_of_neg, List.takeWhile_nil]
    rw [hbreak]
    decide
  | cons first rest ih => rw [List.cons_append, List.takeWhile_cons, List.takeWhile_cons, ih]

theorem IsSimple.before_break (h : IsSimple options before tokens after tree) :
    IsSimple options before tokens (after ++ lineBreak :: more) tree := by
  cases h with
  | fixed hshape hplace hfits => exact .fixed hshape hplace hfits
  | assignment htarget harrow hspan hline hends hread =>
    exact .assignment htarget harrow hspan hline (hends.before_break hbreak) hread
  | store hopens hparts hlone hline hends hread =>
    exact .store hopens hparts hlone hline (hends.before_break hbreak) hread

theorem IsStray.before_break (h : IsStray before token after) :
    IsStray before token (after ++ lineBreak :: more) where
  kind := h.kind
  noAssignment hvariable := by
    cases after with
    | nil =>
      intro t ht
      cases ht
      rw [hbreak]
      nofun
    | cons first rest => exact h.noAssignment hvariable
  noStore hopens := by
    rw [← List.cons_append, takeWhile_before_break hbreak]
    exact h.noStore hopens

/-- A body in line form may end where the line does. -/
theorem BlockEnd.endsBefore_before_break (h : BlockEnd.line.EndsBefore after) :
    BlockEnd.line.EndsBefore (after ++ lineBreak :: more) := by
  cases after with
  | nil => exact .inr ⟨rfl, hbreak⟩
  | cons first rest => exact h

-- A body between `THEN` and `END` is followed by a keyword either way.  Only a body in line form
-- can reach up to the line break, and it may end there.
mutual

theorem IsStatement.before_break {before tokens after skipped : List Token} {tree : Node} :
    IsStatement options before tokens after skipped tree →
      IsStatement options before tokens (after ++ lineBreak :: more) skipped tree
  | .simple h => .simple (h.before_break hbreak)
  | .ifThen hkeyword hguard hthen hbody hfull hend =>
    .ifThen hkeyword hguard hthen (hbody.before_break hbody.endsBefore) hfull hend
  | .ifThenElse hkeyword hguard hthen hbody hfull helse halternative hfull' hend => by
    have hbody' := hbody.before_break hbody.endsBefore
    exact .ifThenElse hkeyword hguard hthen (by simpa using hbody') hfull helse
      (halternative.before_break halternative.endsBefore) hfull' hend
  | .ifLine hkeyword hguard hbreaks hareBreaks hbody hfull =>
    .ifLine hkeyword hguard hbreaks hareBreaks
      (hbody.before_break (BlockEnd.endsBefore_before_break hbreak hbody.endsBefore)) hfull

/-- A line break and more behind a block do not change it, if it may still end there. -/
theorem IsBlock.before_break {stop : BlockEnd} {before tokens after skipped : List Token}
    {statements : List Node} (hends : stop.EndsBefore (after ++ lineBreak :: more)) :
    IsBlock options stop before tokens after skipped statements →
      IsBlock options stop before tokens (after ++ lineBreak :: more) skipped statements
  | .finish _ => .finish hends
  | .newLine hstop htoken hrest => .newLine hstop htoken (hrest.before_break hends)
  | .statement htokens hrest => by
    refine .statement ?_ (hrest.before_break hends)
    rw [← List.append_assoc]
    exact htokens.before_break
  | .skip hpolicy hopen hstray hrest => by
    refine .skip hpolicy hopen ?_ (hrest.before_break hends)
    rw [← List.append_assoc]
    exact hstray.before_break hbreak

end

end BeforeBreak

/-! ### At another place -/

/-- No title starts some tokens, with those before them. -/
def NoTitle (before tokens : List Token) : Prop :=
  before = [] → ∀ t ∈ tokens.head?, t.kind ≠ .keyword .program

theorem noTitle_of_ne_nil (h : before ≠ []) : NoTitle before tokens :=
  fun hempty => absurd hempty h

/-- A statement has a first token, and this is the one that matters. -/
theorem IsStatement.noTitle (h : IsStatement options before tokens after skipped tree)
    (hfirst : NoTitle before (tokens ++ more)) : NoTitle before tokens := by
  obtain ⟨first, rest, rfl, -⟩ := h.exists_head
  exact hfirst

theorem IsStatement.append_ne_nil (h : IsStatement options before tokens after skipped tree) :
    before ++ tokens ≠ [] := by
  obtain ⟨first, rest, rfl, -⟩ := h.exists_head
  simp

section Elsewhere

variable {before' : List Token}

theorem opensLine_append_congr (hplace : OpensLine before' ↔ OpensLine before) :
    OpensLine (before' ++ more) ↔ OpensLine (before ++ more) := by
  unfold OpensLine at hplace ⊢
  rw [List.getLast?_append, List.getLast?_append]
  cases more.getLast? with
  | none => exact hplace
  | some last => exact Iff.rfl

theorem Kind.MayFollow.elsewhere {kind : Kind} (h : kind.MayFollow before)
    (hplace : OpensLine before' ↔ OpensLine before)
    (hfirst : before = [] → kind ≠ .keyword .program) : kind.MayFollow before' := by
  cases kind with
  | keyword word =>
    cases word with
    | program => exact absurd rfl (hfirst h)
    | label | goto => exact hplace.2 h
    | _ => trivial
  | dataType type => exact hplace.2 h
  | _ => trivial

theorem IsSimple.elsewhere (hplace : OpensLine before' ↔ OpensLine before)
    (hfirst : NoTitle before tokens) (h : IsSimple options before tokens after tree) :
    IsSimple options before' tokens after tree := by
  cases h with
  | @fixed keyword operands _ shape hshape hmay hfits =>
    exact .fixed hshape (hmay.elsewhere hplace fun hempty => hfirst hempty keyword rfl) hfits
  | assignment htarget harrow hspan hline hends hread =>
    exact .assignment htarget harrow hspan hline hends hread
  | store hopens hparts hlone hline hends hread =>
    exact .store (hplace.2 hopens) hparts hlone hline hends hread

theorem IsStray.elsewhere (hplace : OpensLine before' ↔ OpensLine before)
    (h : IsStray before token after) : IsStray before' token after where
  kind := h.kind
  noAssignment := h.noAssignment
  noStore hopens := h.noStore (hplace.1 hopens)

-- What stands before a statement matters in two ways: whether it is empty, which only a title asks,
-- and whether it ends with a line break.  The bodies of a conditional are never at the start.
mutual

theorem IsStatement.elsewhere {before before' tokens after skipped : List Token} {tree : Node}
    (hplace : OpensLine before' ↔ OpensLine before) (hfirst : NoTitle before tokens) :
    IsStatement options before tokens after skipped tree →
      IsStatement options before' tokens after skipped tree
  | .simple h => .simple (h.elsewhere hplace hfirst)
  | .ifThen hkeyword hguard hthen hbody hfull hend => by
    have hbody' := hbody.elsewhere (opensLine_append_congr hplace) (noTitle_of_ne_nil (by simp))
    exact .ifThen hkeyword hguard hthen hbody' hfull hend
  | .ifThenElse hkeyword hguard hthen hbody hfull helse halternative hfull' hend => by
    have hbody' := hbody.elsewhere (opensLine_append_congr hplace) (noTitle_of_ne_nil (by simp))
    have halternative' :=
      halternative.elsewhere (opensLine_append_congr hplace) (noTitle_of_ne_nil (by simp))
    exact .ifThenElse hkeyword hguard hthen hbody' hfull helse halternative' hfull' hend
  | .ifLine hkeyword hguard hbreaks hareBreaks hbody hfull => by
    have hbody' := hbody.elsewhere (opensLine_append_congr hplace) (noTitle_of_ne_nil (by simp))
    exact .ifLine hkeyword hguard hbreaks hareBreaks hbody' hfull

/-- What stands before a block does not matter to it, but for whether a line ends there.  A title at the
    start of the text is the one exception. -/
theorem IsBlock.elsewhere {stop : BlockEnd} {before before' tokens after skipped : List Token}
    {statements : List Node} (hplace : OpensLine before' ↔ OpensLine before)
    (hfirst : NoTitle before tokens) :
    IsBlock options stop before tokens after skipped statements →
      IsBlock options stop before' tokens after skipped statements
  | .finish hends => .finish hends
  | .newLine hstop htoken hrest => by
    refine .newLine hstop htoken ?_
    exact hrest.elsewhere (opensLine_append_congr hplace) (noTitle_of_ne_nil (by simp))
  | .statement htokens hrest => by
    refine .statement (htokens.elsewhere hplace (htokens.noTitle hfirst)) ?_
    exact hrest.elsewhere (opensLine_append_congr hplace) (noTitle_of_ne_nil htokens.append_ne_nil)
  | .skip hpolicy hopen hstray hrest => by
    refine .skip hpolicy hopen (hstray.elsewhere hplace) ?_
    exact hrest.elsewhere (opensLine_append_congr hplace) (noTitle_of_ne_nil (by simp))

end

end Elsewhere

/-! ### Titles -/

theorem IsStatement.kind_ne_program (h : IsStatement options before tokens after skipped tree)
    (hfirst : NoTitle before tokens) : tree.kind ≠ .keyword .program := by
  intro hkind
  cases h with
  | simple h =>
    cases h with
    | @fixed keyword operands _ shape hshape hplace hfits =>
      have hkeyword : keyword.kind = .keyword .program := hkind
      rw [hkeyword] at hplace
      exact hfirst hplace keyword rfl hkeyword
    | assignment _ harrow => cases harrow.symm.trans hkind
    | store _ hparts => cases hparts.arrow.symm.trans hkind
  | ifThen hkeyword | ifThenElse hkeyword | ifLine hkeyword => cases hkeyword.symm.trans hkind

/-- A block that does not start with a title has none among its statements. -/
theorem IsBlock.kind_ne_program {stop : BlockEnd} {before tokens after skipped : List Token}
    {statements : List Node} (hfirst : NoTitle before tokens) :
    IsBlock options stop before tokens after skipped statements →
      ∀ tree ∈ statements, tree.kind ≠ .keyword .program
  | .finish _ => nofun
  | .newLine _ _ hrest => hrest.kind_ne_program (noTitle_of_ne_nil (by simp))
  | .statement htokens hrest =>
    List.forall_mem_cons.2 ⟨htokens.kind_ne_program (htokens.noTitle hfirst),
      hrest.kind_ne_program (noTitle_of_ne_nil htokens.append_ne_nil)⟩
  | .skip _ _ _ hrest => hrest.kind_ne_program (noTitle_of_ne_nil (by simp))

theorem title?_append (h : ∀ tree ∈ statements', tree.kind ≠ .keyword .program) :
    title? (statements ++ statements') = title? statements := by
  cases statements with
  | cons first rest => rfl
  | nil =>
    cases statements' with
    | nil => rfl
    | cons first rest => exact if_neg (h first (List.mem_cons_self ..))

theorem programTree_append (h : ∀ tree ∈ statements', tree.kind ≠ .keyword .program) :
    programTree (statements ++ statements') =
      { programTree statements with children := statements ++ statements' } := by
  rw [programTree, title?_append h]
  rfl

/-! ### Two blocks -/

/-- The statements of two blocks in a row, with a line break between them. -/
theorem IsBlock.append {before tokens skipped : List Token} {statements : List Node}
    (hbreak : lineBreak.kind = .lineBreak) :
    IsBlock options .program before tokens [] skipped statements →
      IsBlock options .program (before ++ tokens) (lineBreak :: more) [] skipped' statements' →
      IsBlock options .program before (tokens ++ lineBreak :: more) [] (skipped ++ skipped')
        (statements ++ statements')
  | .finish _, h => by
    -- The second block takes the place of the end of the first one.
    rw [List.append_nil] at h
    exact h
  | .newLine hstop htoken hrest, h => by
    refine .newLine hstop htoken (hrest.append hbreak ?_)
    rw [List.append_assoc]
    exact h
  | .statement htokens hrest, h => by
    rw [List.append_nil] at htokens
    rw [← List.append_assoc] at h
    rw [List.append_assoc, List.append_assoc]
    refine .statement ?_ (hrest.append hbreak h)
    rw [List.append_nil]
    exact htokens.before_break hbreak
  | .skip hpolicy hopen hstray hrest, h => by
    rw [List.append_nil] at hstray
    refine .skip hpolicy hopen ?_ (hrest.append hbreak ?_)
    · rw [List.append_nil]
      exact hstray.before_break hbreak
    · rw [List.append_assoc]
      exact h

theorem opensLine_of_areBreaks {breaks : List Token} (body : List Token)
    (hbreaks : AreBreaks breaks) (hsome : breaks ≠ []) : OpensLine (body ++ breaks) := by
  intro t ht
  rw [List.getLast?_append, List.getLast?_eq_some_getLast hsome] at ht
  cases ht
  exact eq_of_beq (hbreaks _ (List.getLast_mem hsome))

/-- Line breaks before the statements of a block do not matter, unless they would end it. -/
theorem IsBlock.after_breaks {breaks : List Token} (hstop : stop ≠ .line)
    (hbreaks : AreBreaks breaks)
    (h : IsBlock options stop (before ++ breaks) tokens after skipped statements) :
    IsBlock options stop before (breaks ++ tokens) after skipped statements := by
  induction breaks generalizing before with
  | nil =>
    rw [List.append_nil] at h
    exact h
  | cons first rest ih =>
    obtain ⟨hfirst, hrest⟩ := List.forall_mem_cons.1 hbreaks
    refine .newLine hstop (eq_of_beq hfirst) (ih hrest ?_)
    rw [List.append_assoc]
    exact h

theorem IsBlock.of_nil (h : IsBlock options stop before [] after skipped statements) :
    skipped = [] ∧ statements = [] := by
  generalize hnil : ([] : List Token) = nothing at h
  cases h with
  | finish => exact ⟨rfl, rfl⟩
  | newLine | skip => cases hnil
  | statement htokens =>
    obtain ⟨first, more, rfl, -⟩ := htokens.exists_head
    cases hnil

/-- Two programs with a line break between them are one program, if no title starts the second
    one. -/
theorem IsBlock.join {body body' joined : List Token} (hjoins : JoinsLines body body' joined)
    (h : IsBlock options .program [] body [] skipped statements)
    (h' : IsBlock options .program [] body' [] skipped' statements') (hfirst : NoTitle [] body') :
    IsBlock options .program [] joined [] (skipped ++ skipped') (statements ++ statements') := by
  cases hjoins with
  | first =>
    obtain ⟨rfl, rfl⟩ := h'.of_nil
    rw [List.append_nil, List.append_nil]
    exact h
  | second =>
    obtain ⟨rfl, rfl⟩ := h.of_nil
    exact h'
  | @both breaks _ _ hbreaks hsome =>
    -- The second program is put behind the first one and the line breaks, these are passed one by
    -- one, and the first of them is the one that the first program ends before.
    have hplace : OpensLine (body ++ breaks) ↔ OpensLine [] :=
      iff_of_true (opensLine_of_areBreaks body hbreaks hsome) nofun
    have hbehind := h'.elsewhere hplace hfirst
    have hrest : IsBlock options .program body (breaks ++ body') [] skipped' statements' :=
      .after_breaks nofun hbreaks hbehind
    obtain ⟨first, rest, rfl⟩ := List.exists_cons_of_ne_nil hsome
    exact h.append (eq_of_beq (hbreaks first (List.mem_cons_self ..))) hrest

/-! ### Main result -/

/-- One program and another one behind it, whose lines are further down by the given number. -/
def Compilation.append (one : Compilation) (lines : Nat) (two : Compilation) : Compilation where
  root := { one.root with
    children := one.root.children ++ two.root.children.map (Node.relined (· + lines)) }
  diagnostics := one.diagnostics ++ two.diagnostics.map (Diagnostic.relined (· + lines))

/-- If two texts are compiled, no title is asked for and the second text does not start with
    `PROGRAM`, then the texts with a line break between them are compiled.  The name is that of the
    first text.  The statements and the notes are those of the first text and then those of the
    second one, on lines further down by the line breaks of the first text and the one between. -/
theorem compile_append (options : ReadOptions) (first second : String) (one two : Compilation)
    (tokens : List Token) (htitle : options.requireTitle = false)
    (hone : compile options first = .ok one) (htwo : compile options second = .ok two)
    (htokens : tokenize second = .ok tokens)
    (hfirst : ∀ t ∈ tokens.head?, t.kind ≠ .keyword .program) :
    compile options (first ++ "\n" ++ second) =
      .ok (one.append (first.toList.count '\n' + 1) two) := by
  obtain ⟨body, skipped, statements, hbody, rfl⟩ := compile_eq_ok_iff.1 hone
  obtain ⟨body', skipped', statements', hbody', rfl⟩ := compile_eq_ok_iff.1 htwo
  obtain ⟨joined, hjoins, hjoined⟩ := tokenize_append hbody.tokens hbody'.tokens
  obtain ⟨others, hblock, hnotes⟩ :=
    hbody'.block.relined (· + (first.toList.count '\n' + 1))
  have hnoTitle : NoTitle [] (body'.map (Token.relined (· + (first.toList.count '\n' + 1)))) := by
    obtain rfl := Except.ok.inj (htokens.symm.trans hbody'.tokens)
    intro _ t ht
    cases body' with
    | nil => cases ht
    | cons head rest =>
      cases ht
      exact hfirst head rfl
  have hall := hbody.block.join hjoins hblock hnoTitle
  refine compile_eq_ok_iff.2 ⟨joined, _, _, ⟨hjoined, ?_, hall⟩, ?_⟩
  · intro hask
    cases htitle.symm.trans hask
  · rw [programTree_append (hblock.kind_ne_program hnoTitle), List.map_append, hnotes]
    rfl

/-- The second text starts with an `END` that ends nothing, also not the conditional before it. -/
theorem compile_append_stray :
    compile .default ("IF A == 1\nDISP A" ++ "\n" ++ "END\nDISP B") =
      .ok ⟨⟨.plain (.phrase .prog) 0, none,
        [.branch ⟨.keyword .ifWord, none, 1⟩
          [.phrase .boolExpr 1 [.branch ⟨.comparison .equal, none, 1⟩
            [.leaf ⟨.var .scalar, some "A", 1⟩, .leaf ⟨.literal .int, some "1", 1⟩]],
          .phrase .block 1 [.branch ⟨.keyword .disp, none, 2⟩ [.leaf ⟨.var .scalar, some "A", 2⟩]]],
        .branch ⟨.keyword .disp, none, 4⟩ [.leaf ⟨.var .scalar, some "B", 4⟩]]⟩,
        [⟨3, "skipped unexpected token END"⟩]⟩ :=
  (compile_append .default "IF A == 1\nDISP A" "END\nDISP B"
    ⟨⟨.plain (.phrase .prog) 0, none,
      [.branch ⟨.keyword .ifWord, none, 1⟩
        [.phrase .boolExpr 1 [.branch ⟨.comparison .equal, none, 1⟩
          [.leaf ⟨.var .scalar, some "A", 1⟩, .leaf ⟨.literal .int, some "1", 1⟩]],
        .phrase .block 1 [.branch ⟨.keyword .disp, none, 2⟩ [.leaf ⟨.var .scalar, some "A", 2⟩]]]]⟩,
      []⟩
    ⟨⟨.plain (.phrase .prog) 0, none,
      [.branch ⟨.keyword .disp, none, 2⟩ [.leaf ⟨.var .scalar, some "B", 2⟩]]⟩,
      [⟨1, "skipped unexpected token END"⟩]⟩
    [⟨.keyword .endWord, none, 1⟩, ⟨.lineBreak, none, 1⟩, ⟨.keyword .disp, none, 2⟩,
      ⟨.var .scalar, some "B", 2⟩, ⟨.endOfFile, none, 2⟩]
    rfl (by cbv) (by cbv) (by cbv) (by decide)).trans (by cbv)

end CalcLang
