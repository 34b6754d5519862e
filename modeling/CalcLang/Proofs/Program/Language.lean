import CalcLang.Proofs.Program.Conditional

/-! # The language of programs

    What the reader of programs accepts and what it builds:

    * `readsBlock_of_read`: what is read as a block is one of the grammar.
    * `IsBlock.reads`: a block of the grammar is read.
    * `readProgram_language`: if tokens that start no statement are errors, a list of tokens is read
      as a program iff it is a block of the grammar, and the tree is the one of the grammar. -/

namespace CalcLang

open Reading

variable {options : ReadOptions} {s s' : Session} {stop : BlockEnd} {tree : Node}
  {before tokens after rest skipped : List Token} {keyword token : Token} {statements : List Node}

/-! ### The next token of a block -/

theorem BlockEnd.endsBefore_cons :
    stop.EndsBefore (token :: rest) ↔ stop.step token.kind = .close := by
  rw [EndsBefore]
  generalize token.kind = kind
  cases kind with
  | keyword word => cases word <;> cases stop <;> simp [step]
  | lineBreak => cases stop <;> simp [step]
  | _ => simp [step]

theorem BlockEnd.step_eq_statement {kind : Kind} (hinside : kind.endsLine = false)
    (hopen : stop.step kind ≠ .close) : stop.step kind = .statement := by
  cases kind with
  | keyword word => cases word <;> cases stop <;> simp_all [step]
  | lineBreak => cases hinside
  | endOfFile => cases hinside
  | _ => rfl

theorem BlockEnd.endsLine_of_step {kind : Kind} (h : stop.step kind = .statement) :
    kind.endsLine = false := by
  cases kind with
  | lineBreak => cases stop <;> cases h
  | endOfFile => cases h
  | _ => rfl

theorem BlockEnd.newLine_of_step {kind : Kind} (h : stop.step kind = .newLine) :
    stop ≠ .line ∧ kind = .lineBreak := by
  cases kind with
  | keyword word => cases word <;> cases stop <;> cases h
  | lineBreak => cases stop <;> simp_all [step]
  | _ => cases h

/-! ### The first token of a statement -/

theorem IsSimple.exists_head (h : IsSimple options before tokens after tree) :
    ∃ first more, tokens = first :: more ∧ first.kind.endsLine = false := by
  cases h with
  | @fixed keyword operands _ shape hshape hplace hfits =>
    refine ⟨keyword, operands, rfl, ?_⟩
    cases hkind : keyword.kind <;> simp_all [Kind.operands?, Kind.endsLine]
  | @assignment target arrow span _ _ htarget harrow hspan hline hends hread =>
    exact ⟨target, arrow :: span, rfl, (Kind.opensNothing_of_isVariable htarget).inside⟩
  | @store arrow target _ span _ _ hopens hparts hlone hline hends hread =>
    obtain ⟨first, rest, rfl⟩ := List.exists_cons_of_ne_nil hparts.nonempty
    obtain rfl := hparts.parts
    exact ⟨first, rest ++ [arrow, target], rfl, hline first (List.mem_cons_self ..)⟩

theorem IsStatement.exists_head (h : IsStatement options before tokens after skipped tree) :
    ∃ first more, tokens = first :: more ∧ first.kind.endsLine = false := by
  cases h with
  | simple h => exact h.exists_head
  | ifThen hkeyword => exact ⟨_, _, rfl, by rw [hkeyword]; rfl⟩
  | ifThenElse hkeyword => exact ⟨_, _, rfl, by rw [hkeyword]; rfl⟩
  | ifLine hkeyword => exact ⟨_, _, rfl, by rw [hkeyword]; rfl⟩

/-- The body of a conditional in line form starts on a line of its own. -/
theorem IsBlock.exists_head (h : IsBlock options .line before tokens after skipped statements)
    (hfull : statements ≠ []) :
    ∃ first more, tokens = first :: more ∧ first.kind.endsLine = false := by
  cases h with
  | finish => exact absurd rfl hfull
  | newLine hstop => exact absurd rfl hstop
  | @statement _ _ tokens rest _ _ _ _ _ htokens _ =>
    obtain ⟨first, more, rfl, hinside⟩ := htokens.exists_head
    exact ⟨first, more ++ rest, rfl, hinside⟩
  | skip _ _ hstray => exact ⟨_, _, rfl, hstray.kind.inside⟩

/-! ### From a reading to a derivation -/

/-- A session has read a block of the grammar. -/
def ReadsBlock (s : Session) (stop : BlockEnd) (statements : List Node) (s' : Session) : Prop :=
  ∃ tokens skipped, s.Moves tokens skipped s' ∧
    IsBlock s.options stop s.passed.reverse tokens s'.ahead skipped statements

/-- With fewer tokens ahead than a session has, only blocks of the grammar are read. -/
def SoundBelow (readBlock : BlockEnd → Reading (List Node)) (s : Session) : Prop :=
  ∀ stop t statements t', t.ahead.length < s.ahead.length →
    readBlock stop t = .ok statements t' → ReadsBlock t stop statements t'

theorem exists_guard (here : List Token) :
    ∃ guard tail, here = guard ++ tail ∧ OnLine guard ∧
      (∀ t ∈ guard, t.kind ≠ .keyword .thenWord) ∧
      ((∃ thenWord behind, tail = thenWord :: behind ∧ thenWord.kind = .keyword .thenWord) ∨
        EndsLine tail) := by
  induction here with
  | nil => exact ⟨[], [], rfl, nofun, nofun, .inr nofun⟩
  | cons token rest ih =>
    by_cases hthen : token.kind = .keyword .thenWord
    · exact ⟨[], token :: rest, rfl, nofun, nofun, .inl ⟨token, rest, rfl, hthen⟩⟩
    · cases hends : token.kind.endsLine with
      | true =>
        refine ⟨[], token :: rest, rfl, nofun, nofun, .inr ?_⟩
        rintro t ⟨⟩
        exact hends
      | false =>
        obtain ⟨guard, tail, rfl, hline, hothers, htail⟩ := ih
        refine ⟨token :: guard, tail, rfl, ?_, ?_, htail⟩
        · intro t ht
          rcases List.mem_cons.1 ht with rfl | ht
          · exact hends
          · exact hline t ht
        · intro t ht
          rcases List.mem_cons.1 ht with rfl | ht
          · exact hthen
          · exact hothers t ht

theorem exists_breaks (here : List Token) :
    ∃ breaks rest, here = breaks ++ rest ∧ (∀ t ∈ breaks, t.kind = .lineBreak) ∧
      (∀ t ∈ rest.head?, t.kind ≠ .lineBreak) := by
  induction here with
  | nil => exact ⟨[], [], rfl, nofun, nofun⟩
  | cons token rest ih =>
    by_cases hbreak : token.kind = .lineBreak
    · obtain ⟨breaks, later, rfl, hbreaks, hlater⟩ := ih
      refine ⟨token :: breaks, later, rfl, ?_, hlater⟩
      intro t ht
      rcases List.mem_cons.1 ht with rfl | ht
      · exact hbreak
      · exact hbreaks t ht
    · refine ⟨[], token :: rest, rfl, nofun, ?_⟩
      rintro t ⟨⟩
      exact hbreak

section Inside

/-! Statements, if whatever is read as a block inside them is one of the grammar. -/

variable {readBlock : BlockEnd → Reading (List Node)} (hblock : SoundBelow readBlock s)

include hblock

/-- A conditional in block form that is read is one of the grammar. -/
theorem isStatement_of_bodies {m : Session} {guard : List Token} {thenWord : Token}
    {condition : Node} {bodies : List Node} (hkeyword : keyword.kind = .keyword .ifWord)
    (hguard : IsGuard s.options guard condition)
    (hthen : thenWord.kind = .keyword .thenWord)
    (hmoves : s.Moves (keyword :: (guard ++ [thenWord])) [] m)
    (hbodies : ReadsBodies readBlock keyword m bodies s') :
    ∃ tokens skipped, s.Moves tokens skipped s' ∧
      IsStatement s.options s.passed.reverse tokens s'.ahead skipped
        (.branch keyword (condition :: bodies)) := by
  -- The bodies are read behind the keyword, so fewer tokens are ahead of them.
  have hshorter : m.ahead.length < s.ahead.length := hmoves.length_lt
  cases hbodies with
  | @one statements middle endWord rest hbody hfull hahead hend =>
    obtain ⟨body, skipped, hbodyMoves, hbodyBlock⟩ := hblock _ _ _ _ hshorter hbody
    have hendMoves : middle.Moves [endWord] [] (middle.past [endWord] []) := .past _ [] hahead
    have hall := (hmoves.trans hbodyMoves).trans hendMoves
    rw [hmoves.options, hmoves.before, hahead] at hbodyBlock
    have hafter : (middle.past [endWord] []).ahead = rest := hendMoves.ahead_eq hahead
    have hstatement := IsStatement.ifThen hkeyword hguard hthen hbodyBlock hfull hend
    refine ⟨_, skipped, ?_, hafter ▸ hstatement⟩
    simpa using hall
  | @two statements statements' middle last elseWord endWord rest rest' hbody hfull hahead helse
      halternative hfull' hahead' hend =>
    obtain ⟨body, skipped, hbodyMoves, hbodyBlock⟩ := hblock _ _ _ _ hshorter hbody
    have helseMoves : middle.Moves [elseWord] [] (middle.past [elseWord] []) := .past _ [] hahead
    have helseAll := (hmoves.trans hbodyMoves).trans helseMoves
    have hshorter' : (middle.past [elseWord] []).ahead.length < s.ahead.length :=
      Nat.lt_of_le_of_lt (hbodyMoves.trans helseMoves).length_le hshorter
    obtain ⟨other, skipped', hotherMoves, hotherBlock⟩ :=
      hblock _ _ _ _ hshorter' halternative
    have hendMoves : last.Moves [endWord] [] (last.past [endWord] []) := .past _ [] hahead'
    have hafter : (last.past [endWord] []).ahead = rest' := hendMoves.ahead_eq hahead'
    have hbehind : middle.ahead = elseWord :: (other ++ endWord :: rest') := by
      rw [helseMoves.ahead, hotherMoves.ahead, hahead']
      rfl
    have hall := (helseAll.trans hotherMoves).trans hendMoves
    rw [hmoves.options, hmoves.before, hbehind] at hbodyBlock
    rw [helseAll.options, helseAll.before, hahead'] at hotherBlock
    have hstatement := IsStatement.ifThenElse hkeyword hguard hthen hbodyBlock hfull helse
      (by simpa using hotherBlock) hfull' hend
    refine ⟨_, skipped ++ skipped', ?_, hafter ▸ hstatement⟩
    simpa using hall

/-- A conditional in line form that is read is one of the grammar. -/
theorem isStatement_of_body {m : Session} {guard breaks : List Token} {condition : Node}
    (hkeyword : keyword.kind = .keyword .ifWord) (hguard : IsGuard s.options guard condition)
    (hbreaks : ∀ t ∈ breaks, t.kind = .lineBreak) (hends : EndsLine (breaks ++ m.ahead))
    (hmoves : s.Moves (keyword :: (guard ++ breaks)) [] m)
    (hbody : readBlock .line m = .ok statements s') (hfull : statements ≠ []) :
    ∃ tokens skipped, s.Moves tokens skipped s' ∧
      IsStatement s.options s.passed.reverse tokens s'.ahead skipped
        (.branch keyword [condition, .phrase .block keyword.line statements]) := by
  have hshorter : m.ahead.length < s.ahead.length := hmoves.length_lt
  obtain ⟨body, skipped, hbodyMoves, hbodyBlock⟩ := hblock _ _ _ _ hshorter hbody
  -- Without a line break the line ends the program, and then there is no body.
  have hbreak : breaks ≠ [] := by
    rintro rfl
    obtain ⟨first, more, rfl, hinside⟩ := hbodyBlock.exists_head hfull
    have hend := hends first (by rw [List.nil_append, hbodyMoves.ahead]; rfl)
    rw [hinside] at hend
    cases hend
  have hall := hmoves.trans hbodyMoves
  rw [hmoves.options, hmoves.before] at hbodyBlock
  refine ⟨_, skipped, ?_, .ifLine hkeyword hguard hbreak hbreaks hbodyBlock hfull⟩
  simpa using hall

/-- A conditional that is read is one of the grammar. -/
theorem isStatement_of_readConditional (hahead : s.ahead = keyword :: rest)
    (hkeyword : keyword.kind = .keyword .ifWord)
    (h : readConditional readBlock s.traced = .ok tree s') :
    ∃ tokens skipped, s.Moves tokens skipped s' ∧
      IsStatement s.options s.passed.reverse tokens s'.ahead skipped tree := by
  obtain ⟨guard, tail, rfl, hline, hothers, htail⟩ := exists_guard rest
  rcases htail with ⟨thenWord, behind, rfl, hthen⟩ | hends
  · obtain ⟨hguard, condition, bodies, hread, rfl, hbodies⟩ :=
      (readConditional_then (s := s.traced) hahead hkeyword hline hothers hthen).1 h
    have hahead' : s.ahead = (keyword :: (guard ++ [thenWord])) ++ behind := by
      rw [hahead]
      simp
    exact isStatement_of_bodies hblock hkeyword ⟨hguard, hline, hothers, hread⟩ hthen
      (moves_past hahead') hbodies
  · obtain ⟨breaks, behind, rfl, hbreaks, hbehind⟩ := exists_breaks tail
    obtain ⟨hguard, condition, statements, hread, hfull, rfl, hbody⟩ :=
      (readConditional_line (s := s.traced) hahead hkeyword hline hothers hends hbreaks hbehind).1 h
    have hahead' : s.ahead = (keyword :: (guard ++ breaks)) ++ behind := by
      rw [hahead]
      simp
    refine isStatement_of_body hblock hkeyword ⟨hguard, hline, hothers, hread⟩ hbreaks ?_
      (moves_past hahead') hbody hfull
    rw [(moves_past hahead').ahead_eq hahead']
    exact hends

/-- What is read as a statement is one of the grammar. -/
theorem outcome_of_readStatement {statement : Option Node}
    (hinside : s.next.kind.endsLine = false) (h : readStatement readBlock s = .ok statement s') :
    StatementOutcome s statement s' := by
  cases hshape : s.next.kind.operands? with
  | some shape => exact outcome_of_fixed hshape h
  | none =>
    have hend : s.next.kind ≠ .endOfFile := by
      intro hend
      rw [hend] at hinside
      cases hinside
    obtain ⟨first, rest, hahead⟩ := List.exists_cons_of_ne_nil (Session.ahead_ne_nil hend)
    have hnext := Session.next_eq hahead
    by_cases hconditional : s.next.kind = .keyword .ifWord
    · rw [readStatement_conditional hconditional, map_eq_ok] at h
      obtain ⟨tree, h, rfl⟩ := h
      rw [hnext] at hconditional
      obtain ⟨tokens, skipped, hmoves, hstatement⟩ :=
        isStatement_of_readConditional hblock hahead hconditional h
      exact .statement hmoves hstatement
    · by_cases hcall : s.next.kind = .keyword .call
      · rw [readStatement_call hcall] at h
        cases h
      · have hkind : s.next.kind.OpensNothing := ⟨hinside, hshape, hconditional, hcall⟩
        exact outcome_of_opensNothing hahead (hnext ▸ hkind) h

end Inside

theorem advance_eq (hahead : s.ahead = token :: rest) (htoken : token.kind ≠ .endOfFile) :
    s.advance = s.past [token] [] := by
  rw [Session.advance, Session.next_eq hahead, if_neg htoken]
  exact Session.skip_eq_past [token] hahead

/-- What is read as a block is one of the grammar. -/
theorem readsBlock_of_read (h : readBlock stop s = .ok statements s') :
    ReadsBlock s stop statements s' := by
  -- Every step but the last passes a token, so the induction is on the number of tokens ahead.
  generalize hlength : s.ahead.length = length
  induction length using Nat.strongRecOn generalizing stop s s' statements with
  | ind length ih =>
    subst hlength
    rw [readBlock_eq] at h
    cases hstep : stop.step s.next.kind with
    | finish =>
      simp only [hstep] at h
      by_cases hempty : s.ahead.isEmpty = true
      · rw [if_pos hempty] at h
        obtain ⟨rfl, rfl⟩ := pure_eq_ok.1 h
        refine ⟨[], [], .refl s, .finish ?_⟩
        rw [List.isEmpty_iff.1 hempty]
        exact trivial
      · rw [if_neg hempty] at h
        cases h
    | close =>
      simp only [hstep] at h
      cases h
      obtain ⟨first, rest, hahead, hkind⟩ :=
        exists_next rfl (BlockEnd.kind_ne_of_step hstep nofun)
      refine ⟨[], [], .refl s, .finish ?_⟩
      rw [hahead]
      exact BlockEnd.endsBefore_cons.2 (hkind ▸ hstep)
    | newLine =>
      simp only [hstep] at h
      obtain ⟨hstop, hbreak⟩ := BlockEnd.newLine_of_step hstep
      obtain ⟨token, rest, hahead, hkind⟩ := exists_next hbreak nofun
      rw [advance_eq hahead (by rw [hkind]; nofun)] at h
      have hmoves : s.Moves [token] [] (s.past [token] []) := .past _ [] hahead
      obtain ⟨tokens, skipped, hmoves', hblock⟩ := ih _ hmoves.length_lt h rfl
      rw [hmoves.options, hmoves.before] at hblock
      exact ⟨token :: tokens, skipped, hmoves.trans hmoves', .newLine hstop hkind hblock⟩
    | statement =>
      simp only [hstep, bind_eq_ok, pure_eq_ok] at h
      obtain ⟨statement, middle, hstatement, later, _, hlater, rfl, rfl⟩ := h
      have hinside := BlockEnd.endsLine_of_step hstep
      have hinner : SoundBelow readBlock s := fun stop t statements t' ht hread => ih _ ht hread rfl
      cases outcome_of_readStatement hinner hinside hstatement with
      | @statement tokens skipped tree _ hmoves htokens =>
        -- A statement has a first token, so fewer are ahead behind it.
        obtain ⟨first, more, rfl, -⟩ := htokens.exists_head
        obtain ⟨rest, skipped', hmoves', hblock⟩ := ih _ hmoves.length_lt hlater rfl
        rw [hmoves.options, hmoves.before] at hblock
        rw [hmoves'.ahead] at htokens
        exact ⟨_, _, hmoves.trans hmoves', .statement htokens hblock⟩
      | @skip token _ hmoves hpolicy hstray =>
        obtain ⟨rest, skipped', hmoves', hblock⟩ := ih _ hmoves.length_lt hlater rfl
        rw [hmoves.options, hmoves.before] at hblock
        rw [hmoves'.ahead] at hstray
        refine ⟨_, _, hmoves.trans hmoves', .skip hpolicy ?_ hstray hblock⟩
        rw [Session.next_eq hmoves.ahead] at hstep
        rw [BlockEnd.endsBefore_cons, hstep]
        nofun

/-! ### From a derivation to a reading -/

theorem Kind.not_closing_of_operands {kind : Kind} {shape : List (Kind → Bool)}
    (h : kind.operands? = some shape) (stop : BlockEnd) : stop.step kind = .statement := by
  cases kind with
  | keyword word =>
    cases word with
    | elseWord | endWord => cases h
    | _ => rfl
  | dataType type => rfl
  | _ => cases h

theorem Kind.not_closing_of_isVariable {kind : Kind} (h : kind.isVariable = true)
    (stop : BlockEnd) : stop.step kind = .statement := by
  cases kind with
  | var var => rfl
  | _ => cases h

theorem Kind.not_closing_of_opensExpression {kind : Kind} (h : kind.opensExpression = true)
    (stop : BlockEnd) : stop.step kind = .statement := by
  cases kind with
  | keyword word => cases h
  | lineBreak | endOfFile => cases h
  | _ => rfl

/-- No block ends before a statement. -/
theorem IsSimple.step_head (h : IsSimple options before tokens after tree) :
    ∃ first more, tokens = first :: more ∧ ∀ stop : BlockEnd, stop.step first.kind = .statement := by
  cases h with
  | fixed hshape hplace hfits => exact ⟨_, _, rfl, Kind.not_closing_of_operands hshape⟩
  | assignment htarget => exact ⟨_, _, rfl, Kind.not_closing_of_isVariable htarget⟩
  | store hopens hparts hlone hline hends hread =>
    obtain ⟨first, rest, rfl, hfirst⟩ := hparts.exists_head hread
    obtain rfl := hparts.parts
    exact ⟨first, _, rfl, Kind.not_closing_of_opensExpression hfirst⟩

/-- No block ends before a statement. -/
theorem IsStatement.step_head (h : IsStatement options before tokens after skipped tree) :
    ∃ first more, tokens = first :: more ∧ ∀ stop : BlockEnd, stop.step first.kind = .statement := by
  have hword : ∀ stop : BlockEnd, stop.step (.keyword .ifWord) = .statement := fun _ => rfl
  cases h with
  | simple h => exact h.step_head
  | ifThen hkeyword => exact ⟨_, _, rfl, by rw [hkeyword]; exact hword⟩
  | ifThenElse hkeyword => exact ⟨_, _, rfl, by rw [hkeyword]; exact hword⟩
  | ifLine hkeyword => exact ⟨_, _, rfl, by rw [hkeyword]; exact hword⟩

/-! The steps of a block, one by one. -/

theorem readBlock_finish (hends : stop.EndsBefore s.ahead) : readBlock stop s = .ok [] s := by
  rw [readBlock_eq]
  cases hahead : s.ahead with
  | nil =>
    rw [Session.next_of_nil hahead]
    rfl
  | cons first rest =>
    rw [hahead, BlockEnd.endsBefore_cons] at hends
    rw [Session.next_eq hahead, hends]

theorem readBlock_newLine (hahead : s.ahead = token :: rest) (hstop : stop ≠ .line)
    (htoken : token.kind = .lineBreak) : readBlock stop s = readBlock stop (s.past [token] []) := by
  have hstep : stop.step .lineBreak = .newLine := if_neg hstop
  rw [readBlock_eq, Session.next_eq hahead, htoken, hstep]
  simp only
  rw [advance_eq hahead (by rw [htoken]; nofun)]

theorem readBlock_statement (hahead : s.ahead = token :: rest)
    (hstep : stop.step token.kind = .statement) :
    readBlock stop s = (readStatement readBlock >>= fun statement =>
      readBlock stop >>= fun later => pure (statement.toList ++ later)) s := by
  rw [readBlock_eq, Session.next_eq hahead, hstep]

mutual

/-- A statement of the grammar is read as its tree. -/
theorem IsStatement.reads {before tokens after skipped : List Token} {tree : Node} :
    IsStatement options before tokens after skipped tree → ∀ s : Session,
      s.At options before (tokens ++ after) →
      ∃ s', readStatement readBlock s = .ok (some tree) s' ∧ s.Moves tokens skipped s'
  | .simple h => fun s hat => h.reads hat
  | @IsStatement.ifThen _ keyword thenWord endWord before guard body after skipped condition
      statements hkeyword hguard hthen hbody hfull hend => by
    intro s hat
    have hahead : s.ahead = keyword :: (guard ++ thenWord :: (body ++ endWord :: after)) := by
      rw [hat.here]
      simp
    obtain ⟨m, hmoves, hread⟩ := readStatement_then hkeyword (hat.options ▸ hguard) hahead hthen
    have hm : m.At options (before ++ keyword :: (guard ++ [thenWord]))
        (body ++ endWord :: after) :=
      hmoves.at ⟨hat.options, hat.before, by rw [hahead]; simp⟩
    obtain ⟨middle, hbodyRead, hbodyMoves⟩ := hbody.reads m hm
    have hmiddle := hbodyMoves.ahead_eq hm.here
    have hall := (hmoves.trans hbodyMoves).trans (.past [endWord] [] hmiddle)
    refine ⟨_, hread _ _ (.one hbodyRead hfull hmiddle hend), ?_⟩
    simpa using hall
  | @IsStatement.ifThenElse _ keyword thenWord elseWord endWord before guard body alternative after
      skipped skipped' condition statements statements' hkeyword hguard hthen hbody hfull helse
      halternative hfull' hend => by
    intro s hat
    have hahead : s.ahead = keyword :: (guard ++ thenWord ::
        (body ++ elseWord :: (alternative ++ endWord :: after))) := by
      rw [hat.here]
      simp
    obtain ⟨m, hmoves, hread⟩ := readStatement_then hkeyword (hat.options ▸ hguard) hahead hthen
    have hm : m.At options (before ++ keyword :: (guard ++ [thenWord]))
        (body ++ elseWord :: (alternative ++ endWord :: after)) :=
      hmoves.at ⟨hat.options, hat.before, by rw [hahead]; simp⟩
    obtain ⟨middle, hbodyRead, hbodyMoves⟩ := hbody.reads m hm
    have hmiddle := hbodyMoves.ahead_eq hm.here
    have helseMoves : middle.Moves [elseWord] [] (middle.past [elseWord] []) := .past _ [] hmiddle
    have hother := helseMoves.at (hbodyMoves.at hm)
    obtain ⟨last, hotherRead, hotherMoves⟩ := halternative.reads _ (by simpa using hother)
    have hlast := hotherMoves.ahead_eq hother.here
    have hall := (((hmoves.trans hbodyMoves).trans helseMoves).trans hotherMoves).trans
      (.past [endWord] [] hlast)
    refine ⟨_, hread _ _ (.two hbodyRead hfull hmiddle helse hotherRead hfull' hlast hend), ?_⟩
    simpa using hall
  | @IsStatement.ifLine _ keyword before guard breaks body after skipped condition statements
      hkeyword hguard hbreaks hbreak hbody hfull => by
    intro s hat
    have hahead : s.ahead = keyword :: (guard ++ (breaks ++ (body ++ after))) := by
      rw [hat.here]
      simp
    -- The body is not empty, so it is the body that the line breaks end before.
    have hrest : ∀ t ∈ (body ++ after).head?, t.kind ≠ .lineBreak := by
      obtain ⟨first, more, rfl, hinside⟩ := hbody.exists_head hfull
      rintro t ⟨⟩ hkind
      rw [hkind] at hinside
      cases hinside
    obtain ⟨m, hmoves, hread⟩ :=
      readStatement_line hkeyword (hat.options ▸ hguard) hahead hbreaks hbreak hrest
    have hm : m.At options (before ++ keyword :: (guard ++ breaks)) (body ++ after) :=
      hmoves.at ⟨hat.options, hat.before, by rw [hahead]; simp⟩
    obtain ⟨s', hbodyRead, hbodyMoves⟩ := hbody.reads m hm
    refine ⟨s', hread _ _ hbodyRead hfull, ?_⟩
    simpa using hmoves.trans hbodyMoves

/-- A block of the grammar is read as its statements. -/
theorem IsBlock.reads {stop : BlockEnd} {before tokens after skipped : List Token}
    {statements : List Node} :
    IsBlock options stop before tokens after skipped statements → ∀ s : Session,
      s.At options before (tokens ++ after) →
      ∃ s', readBlock stop s = .ok statements s' ∧ s.Moves tokens skipped s'
  | .finish hends => by
    intro s hat
    refine ⟨s, readBlock_finish ?_, .refl s⟩
    rw [hat.here]
    exact hends
  | @IsBlock.newLine _ stop token before rest after skipped statements hstop htoken hrest => by
    intro s hat
    have hmoves : s.Moves [token] [] (s.past [token] []) := .past _ [] hat.here
    obtain ⟨s', hread, hmoves'⟩ := hrest.reads _ (hmoves.at hat)
    refine ⟨s', ?_, hmoves.trans hmoves'⟩
    rw [readBlock_newLine hat.here hstop htoken]
    exact hread
  | @IsBlock.statement _ stop before tokens rest after skipped skipped' tree statements htokens
      hrest => by
    intro s hat
    rw [List.append_assoc] at hat
    obtain ⟨middle, hstatement, hmoves⟩ := htokens.reads s hat
    obtain ⟨s', hread, hmoves'⟩ := hrest.reads middle (hmoves.at hat)
    obtain ⟨first, more, rfl, hstep⟩ := htokens.step_head
    refine ⟨s', ?_, hmoves.trans hmoves'⟩
    rw [readBlock_statement hat.here (hstep stop)]
    exact bind_eq_ok.2 ⟨_, _, hstatement, bind_eq_ok.2 ⟨_, _, hread, rfl⟩⟩
  | @IsBlock.skip _ stop token before rest after skipped statements hpolicy hopen hstray hrest => by
    intro s hat
    obtain ⟨middle, hstatement, hmoves⟩ := hstray.reads hat hpolicy
    obtain ⟨s', hread, hmoves'⟩ := hrest.reads middle (hmoves.at hat)
    have hstep : stop.step token.kind = .statement :=
      BlockEnd.step_eq_statement hstray.kind.inside fun hclose =>
        hopen (BlockEnd.endsBefore_cons.2 hclose)
    refine ⟨s', ?_, hmoves.trans hmoves'⟩
    rw [readBlock_statement hat.here hstep]
    exact bind_eq_ok.2 ⟨_, _, hstatement, bind_eq_ok.2 ⟨_, _, hread, rfl⟩⟩

end

/-! ### Programs -/

/-- What follows a block ends it. -/
theorem IsBlock.endsBefore {stop : BlockEnd} {before tokens after skipped : List Token}
    {statements : List Node} :
    IsBlock options stop before tokens after skipped statements → stop.EndsBefore after
  | .finish hends => hends
  | .newLine _ _ hrest => hrest.endsBefore
  | .statement _ hrest => hrest.endsBefore
  | .skip _ _ _ hrest => hrest.endsBefore

mutual

theorem IsStatement.skipped_eq_nil {before tokens after skipped : List Token} {tree : Node}
    (hpolicy : options.unknownStatements = .reject) :
    IsStatement options before tokens after skipped tree → skipped = []
  | .simple _ => rfl
  | .ifThen _ _ _ hbody _ _ => hbody.skipped_eq_nil hpolicy
  | .ifThenElse _ _ _ hbody _ _ halternative _ _ => by
    rw [hbody.skipped_eq_nil hpolicy, halternative.skipped_eq_nil hpolicy]
    rfl
  | .ifLine _ _ _ _ hbody _ => hbody.skipped_eq_nil hpolicy

/-- Under a strict policy, no token is skipped. -/
theorem IsBlock.skipped_eq_nil {stop : BlockEnd} {before tokens after skipped : List Token}
    {statements : List Node} (hpolicy : options.unknownStatements = .reject) :
    IsBlock options stop before tokens after skipped statements → skipped = []
  | .finish _ => rfl
  | .newLine _ _ hrest => hrest.skipped_eq_nil hpolicy
  | .statement htokens hrest => by
    rw [htokens.skipped_eq_nil hpolicy, hrest.skipped_eq_nil hpolicy]
    rfl
  | .skip hlenient _ _ _ => by
    rw [hpolicy] at hlenient
    cases hlenient

end

/-- The tree of a program with given statements. -/
def programTree (statements : List Node) : Node :=
  ⟨.plain (.phrase .prog) 0, title? statements, statements⟩

theorem readProgram_eq_ok (htitle : s.options.requireTitle = false) :
    (∃ s', readProgram s = .ok tree s') ↔
      ∃ statements s', readBlock .program s = .ok statements s' ∧ tree = programTree statements := by
  simp only [readProgram, run_get_bind, require_bind_eq_ok]
  simp only [bind_eq_ok, run_trace, pure_eq_ok]
  constructor
  · rintro ⟨_, -, statements, middle, hblock, _, _, ⟨⟩, rfl, rfl⟩
    exact ⟨statements, middle, hblock, rfl⟩
  · rintro ⟨statements, middle, hblock, rfl⟩
    exact ⟨_, by simp [htitle], statements, middle, hblock, (), _, rfl, rfl, rfl⟩

/-- A program ends at the end of the text only. -/
theorem ahead_of_readProgram (h : readBlock .program s = .ok statements s') : s'.ahead = [] := by
  obtain ⟨tokens, skipped, hmoves, hblock⟩ := readsBlock_of_read h
  cases hahead : s'.ahead with
  | nil => rfl
  | cons first rest =>
    have hends := hblock.endsBefore
    rw [hahead] at hends
    simp [BlockEnd.EndsBefore] at hends

/-- A session that has read a program has passed all of its tokens. -/
theorem isBlock_of_readProgram {body : List Token} (hat : s.At options [] body)
    (h : readBlock .program s = .ok statements s') :
    ∃ skipped, s.Moves body skipped s' ∧ IsBlock options .program [] body [] skipped statements := by
  obtain ⟨tokens, skipped, hmoves, hblock⟩ := readsBlock_of_read h
  have hafter := ahead_of_readProgram h
  have hbody := hmoves.ahead
  rw [hat.here, hafter, List.append_nil] at hbody
  rw [hat.options, hat.before, hafter, ← hbody] at hblock
  exact ⟨skipped, hbody ▸ hmoves, hblock⟩

/-- Under either policy, a session that holds all tokens of a program reads them iff they are a block
    of the grammar. -/
theorem readBlock_program {body : List Token} (hat : s.At options [] body)
    (_ : IsScanned body) :
    (∃ s', readBlock .program s = .ok statements s') ↔
      ∃ skipped, IsBlock options .program [] body [] skipped statements := by
  constructor
  · intro ⟨s', hread⟩
    obtain ⟨skipped, -, hblock⟩ := isBlock_of_readProgram hat hread
    exact ⟨skipped, hblock⟩
  · intro ⟨skipped, hblock⟩
    have hat' : s.At options [] (body ++ []) := by
      rw [List.append_nil]
      exact hat
    obtain ⟨s', hread, -⟩ := hblock.reads s hat'
    exact ⟨s', hread⟩

/-! ### Main result -/

/-- If tokens that start no statement are errors and no title is asked for, a list of tokens with the
    end of the program behind them is read as a program iff the tokens are a block of the grammar that
    skips none of them.  The tree is the one of the grammar. -/
theorem readProgram_language (options : ReadOptions) (body : List Token) (terminator : Token)
    (root : Node) (hpolicy : options.unknownStatements = .reject)
    (htitle : options.requireTitle = false)
    (hscanned : ∀ t ∈ body, t.kind.isScanned = true) (hend : terminator.kind = .endOfFile) :
    (∃ s, readProgram (.ofTokens options (body ++ [terminator])) = .ok root s) ↔
      ∃ statements, IsBlock options .program [] body [] [] statements ∧
        root = programTree statements := by
  have hsession : Session.ofTokens options (body ++ [terminator]) =
      ⟨options, [], body, terminator.line, [], []⟩ := by
    simp [Session.ofTokens, hend]
  have hat : Session.At ⟨options, [], body, terminator.line, [], []⟩ options [] body :=
    ⟨rfl, rfl, rfl⟩
  rw [hsession, readProgram_eq_ok htitle]
  constructor
  · intro ⟨statements, s', hread, hroot⟩
    obtain ⟨skipped, hblock⟩ := (readBlock_program hat hscanned).1 ⟨s', hread⟩
    obtain rfl := hblock.skipped_eq_nil hpolicy
    exact ⟨statements, hblock, hroot⟩
  · intro ⟨statements, hblock, hroot⟩
    obtain ⟨s', hread⟩ := (readBlock_program hat hscanned).2 ⟨[], hblock⟩
    exact ⟨statements, s', hread, hroot⟩

/-- The program `IF A == 1 THEN DISP A ELSE 2 -> A END`, with the assignment on a line of its own, has
    a derivation, since it is read. -/
theorem readProgram_language_conditional :
    ∃ statements, IsBlock ⟨.standard, .reject, false, false⟩ .program []
      [⟨.keyword .ifWord, none, 1⟩, ⟨.var .scalar, some "A", 1⟩, ⟨.comparison .equal, none, 1⟩,
        ⟨.literal .int, some "1", 1⟩, ⟨.keyword .thenWord, none, 1⟩, ⟨.keyword .disp, none, 1⟩,
        ⟨.var .scalar, some "A", 1⟩, ⟨.keyword .elseWord, none, 1⟩, ⟨.lineBreak, none, 1⟩,
        ⟨.literal .int, some "2", 2⟩, ⟨.assign, none, 2⟩, ⟨.var .scalar, some "A", 2⟩,
        ⟨.lineBreak, none, 2⟩, ⟨.keyword .endWord, none, 3⟩] [] [] statements ∧
      Node.mk ⟨.phrase .prog, none, 0⟩ none
        [.branch ⟨.keyword .ifWord, none, 1⟩
          [.phrase .boolExpr 1 [.branch ⟨.comparison .equal, none, 1⟩
            [.leaf ⟨.var .scalar, some "A", 1⟩, .leaf ⟨.literal .int, some "1", 1⟩]],
          .phrase .block 1 [.branch ⟨.keyword .disp, none, 1⟩ [.leaf ⟨.var .scalar, some "A", 1⟩]],
          .phrase .block 1 [.branch ⟨.assign, none, 2⟩
            [.leaf ⟨.var .scalar, some "A", 2⟩, .leaf ⟨.literal .int, some "2", 2⟩]]]] =
        programTree statements :=
  (readProgram_language ⟨.standard, .reject, false, false⟩ _ ⟨.endOfFile, none, 3⟩ _ rfl rfl
    (by decide) rfl).1 ⟨_, rfl⟩

end CalcLang
