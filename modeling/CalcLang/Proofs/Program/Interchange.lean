import CalcLang.Proofs.Program.Lines
import CalcLang.Proofs.Program.Spacing

/-! # Statements in each other's place

    Two simple statements with the same tree may stand for each other on a line, wherever that line
    is in a program and whatever is wrong with the rest of it:

    * `Interchangeable`: two such statements and what stands around them.
    * `Session.Toward`: two sessions before the place at which their programs differ.
    * `alignment_toward`: up to that place the programs are read alike, there one statement of each
      is read, and behind it they are the same.
    * `compile_storeLine`: the two ways to write an assignment, as an instance. -/

namespace CalcLang

open Reading

variable {options : ReadOptions} {s t : Session} {count : Nat} {tree : Node}
  {before lead one other after : List Token}

/-! ### Lines before a place -/

/-- Tokens before the start of a line end with a line break. -/
theorem OpensLine.exists_break (h : OpensLine (before ++ lead)) (hlead : lead ≠ []) :
    ∃ front lineBreak, lead = front ++ [lineBreak] ∧ lineBreak.kind = .lineBreak := by
  refine ⟨lead.dropLast, lead.getLast hlead, (List.dropLast_concat_getLast hlead).symm, ?_⟩
  apply h
  rw [List.getLast?_append_of_ne_nil _ hlead, List.getLast?_eq_some_getLast hlead]
  exact rfl

/-- What is taken from the front of some tokens does not depend on what is behind a token that is
    not taken. -/
theorem takeWhile_of_stop {p : Token → Bool} {stop : Token} (front rest : List Token)
    (hstop : p stop = false) :
    (front ++ stop :: rest).takeWhile p = front.takeWhile p := by
  induction front with
  | nil => exact List.takeWhile_cons_of_neg (by rw [hstop]; exact Bool.false_ne_true)
  | cons first front ih => rw [List.cons_append, List.takeWhile_cons, List.takeWhile_cons, ih]

/-- Two statements with the same tree that may stand in the same place, at the start of a line. -/
structure Interchangeable (options : ReadOptions) (before one other after : List Token)
    (tree : Node) : Prop where
  opens : OpensLine before
  left : IsSimple options before one after tree
  right : IsSimple options before other after tree

namespace Session

/-- Two sessions that are the same but for what stands behind the tokens `lead` that are ahead of
    both: `one` in the first session, `other` in the second one. -/
structure Toward (options : ReadOptions) (before one other after lead : List Token)
    (s t : Session) : Prop where
  options_left : s.options = options
  options_right : t.options = options
  passed : s.passed = t.passed
  place : s.passed.reverse ++ lead = before
  left : s.ahead = lead ++ (one ++ after)
  right : t.ahead = lead ++ (other ++ after)
  endLine : s.endLine = t.endLine
  diagnostics : s.diagnostics = t.diagnostics

namespace Toward

variable (h : Toward options before one other after lead s t)

include h

/-- Tokens before the place are passed in both sessions. -/
theorem skip (hcount : count ≤ lead.length) :
    Toward options before one other after (lead.drop count) (s.skip count) (t.skip count) := by
  have htake : s.ahead.take count = lead.take count := by
    rw [h.left, List.take_append_of_le_length hcount]
  have htake' : t.ahead.take count = lead.take count := by
    rw [h.right, List.take_append_of_le_length hcount]
  refine ⟨h.options_left, h.options_right, ?_, ?_, ?_, ?_, h.endLine, h.diagnostics⟩
  · show (s.ahead.take count).reverse ++ s.passed = (t.ahead.take count).reverse ++ t.passed
    rw [htake, htake', h.passed]
  · show ((s.ahead.take count).reverse ++ s.passed).reverse ++ lead.drop count = before
    rw [htake, List.reverse_append, List.reverse_reverse, List.append_assoc,
      List.take_append_drop, h.place]
  · show s.ahead.drop count = _
    rw [h.left, List.drop_append_of_le_length hcount]
  · show t.ahead.drop count = _
    rw [h.right, List.drop_append_of_le_length hcount]

theorem logged (records records' : List Record) : Toward options before one other after lead
    { s with log := s.log ++ records } { t with log := t.log ++ records' } :=
  { h with }

theorem noted (diagnostic : Diagnostic) : Toward options before one other after lead
    { s with diagnostics := s.diagnostics ++ [diagnostic] }
    { t with diagnostics := t.diagnostics ++ [diagnostic] } := by
  refine { h with diagnostics := ?_ }
  show s.diagnostics ++ [diagnostic] = t.diagnostics ++ [diagnostic]
  rw [h.diagnostics]

/-- The line ahead ends before the place, so it is the same in both sessions. -/
theorem restOfLine (hopens : OpensLine before) (hlead : lead ≠ []) :
    s.restOfLine = t.restOfLine ∧ s.restOfLine.length < lead.length := by
  obtain ⟨front, lineBreak, rfl, hbreak⟩ := (h.place ▸ hopens).exists_break hlead
  have hstop : (!lineBreak.kind.endsLine) = false := by rw [hbreak]; rfl
  have hleft : s.restOfLine = front.takeWhile (!·.kind.endsLine) := by
    rw [Session.restOfLine, h.left, List.append_assoc]
    exact takeWhile_of_stop front _ hstop
  have hright : t.restOfLine = front.takeWhile (!·.kind.endsLine) := by
    rw [Session.restOfLine, h.right, List.append_assoc]
    exact takeWhile_of_stop front _ hstop
  refine ⟨hleft.trans hright.symm, ?_⟩
  have hle := (List.takeWhile_prefix (l := front) (!·.kind.endsLine)).length_le
  rw [hleft, List.length_append]
  exact Nat.lt_succ_of_le hle

theorem looksLike (hopens : OpensLine before) (hlead : lead ≠ []) : s.LooksLike t := by
  obtain ⟨hline, hshorter⟩ := h.restOfLine hopens hlead
  obtain ⟨first, rest, rfl⟩ := List.exists_cons_of_ne_nil hlead
  refine ⟨h.options_left.trans h.options_right.symm, by rw [h.passed], ?_, ?_, ?_, hline, ?_,
    h.diagnostics⟩
  · rw [Session.atLineStart, h.passed]
    rfl
  · rw [Session.next, Session.next, h.left, h.right]
    rfl
  · rw [h.left, h.right]
    rfl
  · intro hword
    have hsecond : 1 < (first :: rest).length := Nat.lt_of_le_of_lt hword hshorter
    rw [h.left, h.right, List.getElem?_append_left hsecond, List.getElem?_append_left hsecond]

/-- Line breaks are passed up to the place at most, since a statement starts there. -/
theorem skipLineBreaks (hstatements : Interchangeable options before one other after tree) :
    Toward options before one other after
      (lead.drop (lead.takeWhile Token.isLineBreak).length) s.skipLineBreaks t.skipLineBreaks := by
  have hbreaks (tokens : List Token) (hsimple : IsSimple options before tokens after tree) :
      (lead ++ (tokens ++ after)).takeWhile Token.isLineBreak =
        lead.takeWhile Token.isLineBreak := by
    obtain ⟨first, more, rfl, hinside⟩ := hsimple.exists_head
    exact takeWhile_of_stop lead _ (isLineBreak_of_endsLine hinside)
  unfold Session.skipLineBreaks
  rw [h.left, h.right, hbreaks one hstatements.left, hbreaks other hstatements.right]
  exact h.skip (List.takeWhile_prefix Token.isLineBreak).length_le

end Toward

/-! ### At the place -/

theorem startsStatement_of_isSimple {tokens : List Token}
    (h : IsSimple options before tokens after tree) (hahead : s.ahead = tokens ++ after) :
    s.StartsStatement := by
  obtain ⟨first, more, rfl, hstep⟩ := h.step_head
  rw [StartsStatement, Session.next_eq hahead]
  exact hstep

/-- A session behind a simple statement is inside of a line. -/
theorem Moves.notAtLineStart {tokens skipped : List Token} (h : s.Moves tokens skipped t)
    (hsimple : IsSimple options before tokens after tree) :
    t.passed.isEmpty = false ∧ t.atLineStart = false := by
  obtain ⟨first, more, htokens, -⟩ := hsimple.exists_head
  have hsome : tokens.reverse ≠ [] := by
    rw [htokens]
    exact List.reverse_ne_nil_iff.2 (List.cons_ne_nil _ _)
  obtain ⟨last, others, hreverse⟩ := List.exists_cons_of_ne_nil hsome
  have hlast : last ∈ tokens := by
    rw [← List.mem_reverse, hreverse]
    exact List.mem_cons_self
  rw [Session.atLineStart, h.passed, hreverse]
  exact ⟨rfl, isLineBreak_of_endsLine (hsimple.onLine last hlast)⟩

namespace Toward

/-- At the place, one statement of each program is read.  What is behind it is the same in both. -/
theorem reads (h : Toward options before one other after [] s t)
    (hstatements : Interchangeable options before one other after tree)
    (readBlock : BlockEnd → Reading (List Node)) :
    SameOutcome Respaced (readStatement readBlock s) (readStatement readBlock t) := by
  have hplace : s.passed.reverse = before := by
    rw [← h.place, List.append_nil]
  have hplace' : t.passed.reverse = before := by
    rw [← h.passed, hplace]
  have hleft : ∃ s', readStatement readBlock s = .ok (some tree) s' ∧ s.Moves one [] s' :=
    hstatements.left.reads ⟨h.options_left, hplace, h.left⟩
  have hright : ∃ t', readStatement readBlock t = .ok (some tree) t' ∧ t.Moves other [] t' :=
    hstatements.right.reads ⟨h.options_right, hplace', h.right⟩
  obtain ⟨s', hread, hmoves⟩ := hleft
  obtain ⟨t', hread', hmoves'⟩ := hright
  obtain ⟨hempty, hstart⟩ := hmoves.notAtLineStart hstatements.left
  obtain ⟨hempty', hstart'⟩ := hmoves'.notAtLineStart hstatements.right
  rw [hread, hread']
  refine .ok (some tree) ⟨?_, hempty.trans hempty'.symm, hstart.trans hstart'.symm, ?_, ?_, ?_⟩
  · rw [hmoves.options, hmoves'.options, h.options_left, h.options_right]
  · rw [hmoves.ahead_eq h.left, hmoves'.ahead_eq h.right]
  · rw [hmoves.endLine, hmoves'.endLine, h.endLine]
  · rw [hmoves.diagnostics, hmoves'.diagnostics, h.diagnostics]

end Toward

/-- Two sessions with tokens ahead of the place, or behind it. -/
def BesidePlace (options : ReadOptions) (before one other after : List Token) (s t : Session) :
    Prop :=
  (∃ lead, lead ≠ [] ∧ s.Toward options before one other after lead t) ∨ s.Respaced t

/-- Two sessions before the place, at it, or behind it. -/
def AroundPlace (options : ReadOptions) (before one other after : List Token) (s t : Session) :
    Prop :=
  (∃ lead, s.Toward options before one other after lead t) ∨ s.Respaced t

end Session

/-- The programs are read alike up to the place, and behind it.  No reading ends inside of the
    statements there. -/
theorem alignment_toward (h : Interchangeable options before one other after tree) :
    Alignment (Session.BesidePlace options before one other after)
      (Session.AroundPlace options before one other after) where
  between_of_within hs := by
    rcases hs with ⟨lead, -, htoward⟩ | hbehind
    · exact .inl ⟨lead, htoward⟩
    · exact .inr hbehind
  looksLike hs := by
    rcases hs with ⟨lead, hlead, htoward⟩ | hbehind
    · exact htoward.looksLike h.opens hlead
    · exact hbehind.looksLike
  skip hs hcount := by
    rcases hs with ⟨lead, hlead, htoward⟩ | hbehind
    · -- The place opens a line, so tokens of the line ahead never reach it.
      have hshorter := Nat.lt_of_le_of_lt hcount (htoward.restOfLine h.opens hlead).2
      refine .inl ⟨_, ?_, htoward.skip (Nat.le_of_lt hshorter)⟩
      exact mt List.drop_eq_nil_iff.1 (Nat.not_le_of_lt hshorter)
    · exact .inr (hbehind.skip hcount)
  skipLineBreaks hs := by
    rcases hs with ⟨lead, -, htoward⟩ | hbehind
    · exact .inl ⟨_, htoward.skipLineBreaks h⟩
    · exact .inr hbehind.skipLineBreaks
  logged records records' hs := by
    rcases hs with ⟨lead, hlead, htoward⟩ | hbehind
    · exact .inl ⟨lead, hlead, htoward.logged records records'⟩
    · exact .inr (hbehind.logged records records')
  noted diagnostic hs := by
    rcases hs with ⟨lead, hlead, htoward⟩ | hbehind
    · exact .inl ⟨lead, hlead, htoward.noted diagnostic⟩
    · exact .inr (hbehind.noted diagnostic)
  turn hs := by
    rcases hs with ⟨lead, htoward⟩ | hbehind
    · by_cases hlead : lead = []
      · -- At the place both sessions read a statement, whatever block they are in.
        subst hlead
        refine .inr ⟨Session.startsStatement_of_isSimple h.left htoward.left,
          Session.startsStatement_of_isSimple h.right htoward.right, fun readBlock => ?_⟩
        exact (htoward.reads h readBlock).mono fun _ _ => .inr
      · exact .inl (.inl ⟨lead, hlead, htoward⟩)
    · exact .inl (.inr hbehind)

/-- Two programs that differ in one statement, but not in its tree, are compiled alike. -/
theorem Interchangeable.compile_eq (h : Interchangeable options before one other after tree)
    (htitle : options.requireTitle = false) (last : Nat) :
    (Session.compile ⟨options, [], before ++ (one ++ after), last, [], []⟩).result =
      (Session.compile ⟨options, [], before ++ (other ++ after), last, [], []⟩).result := by
  have hsessions : Session.Toward options before one other after before
      ⟨options, [], before ++ (one ++ after), last, [], []⟩
      ⟨options, [], before ++ (other ++ after), last, [], []⟩ :=
    ⟨rfl, rfl, rfl, rfl, rfl, rfl, rfl, rfl⟩
  apply (alignment_toward h).compile_eq (.inl ⟨before, hsessions⟩)
  · rw [htitle]
    rfl
  · intro hask
    rw [htitle] at hask
    cases hask

/-! ### Assignments -/

variable {span : List Token} {arrow target : Token} {expression : Node}

/-- The words of an expression are on one line, and none of them is an arrow. -/
theorem onLine_of_readExpression (hscanned : IsScanned span)
    (hread : (readExpression options span).result = .ok expression) :
    OnLine span ∧ ∀ t ∈ span, t.kind ≠ .assign := by
  have hline : OnLine span := endsLine_of_read hread
  obtain ⟨derivation, rfl, -⟩ := exists_expression_of_read (hline.isLine hscanned) hread
  refine ⟨hline, ?_⟩
  intro t ht harrow
  have harithmetic := derivation.isArithmetic t ht
  rw [harrow] at harithmetic
  cases harithmetic

/-- On a line of its own, an assignment may be written with the variable first or last. -/
theorem interchangeable_store (hopens : OpensLine before) (hends : EndsLine after)
    (htarget : target.kind.isVariable = true) (harrow : arrow.kind = .assign)
    (hscanned : IsScanned span) (hread : (readExpression options span).result = .ok expression)
    (hlone : ∀ t, span = [t] → t.kind.isVariable = false) :
    Interchangeable options before (target :: arrow :: span) (span ++ [arrow, target]) after
      (.branch arrow [.leaf target, expression]) := by
  obtain ⟨hline, hothers⟩ := onLine_of_readExpression hscanned hread
  have hspan : span ≠ [] := by
    rintro rfl
    cases hread
  have hstored : OnLine (span ++ [arrow, target]) := by
    intro t ht
    rcases List.mem_append.1 ht with ht | ht
    · exact hline t ht
    · rcases List.mem_pair.1 ht with rfl | rfl
      · rw [harrow]
        rfl
      · exact (Kind.opensNothing_of_isVariable htarget).inside
  exact ⟨hopens, .assignment htarget harrow hspan hline hends hread,
    .store hopens ⟨rfl, hspan, hothers, harrow, htarget⟩ hlone hstored hends hread⟩

/-- Behind some words of a line, there is at least the token that ends the program. -/
theorem exists_behind_line {body : List Token} {terminator : Token} (line : List Token)
    (hend : terminator.kind.endsLine = true) (hline : OnLine line) (hsome : line ≠ [])
    (h : before ++ (line ++ after) = body ++ [terminator]) :
    ∃ behind, after = behind ++ [terminator] ∧ body = before ++ (line ++ behind) := by
  rcases List.eq_nil_or_concat after with rfl | ⟨behind, last, rfl⟩
  · -- Nothing behind it: then the line ends with that token.
    have hlast := congrArg List.getLast? h
    rw [List.append_nil, List.getLast?_append_of_ne_nil _ hsome, List.getLast?_concat] at hlast
    rw [hline terminator (List.mem_of_getLast? hlast)] at hend
    cases hend
  · rw [List.concat_eq_append, ← List.append_assoc line, ← List.append_assoc before] at h
    obtain ⟨rfl, hlast⟩ := List.append_inj' h rfl
    cases hlast
    exact ⟨behind, List.concat_eq_append, rfl⟩

/-- The two ways to write an assignment agree.  Where a line of a program is a variable, an arrow
    and an expression other than a variable, the expression may as well be put first and the
    variable last, on the same line.  Unless the program has to start with a title, the same comes of
    it: the same tree and notes, or the same error. -/
theorem compile_storeLine (options : ReadOptions) (source : String) (before span after : List Token)
    (arrow target : Token) (expression : Node) (htitle : options.requireTitle = false)
    (htokens : tokenize source = .ok (before ++ target :: arrow :: (span ++ after)))
    (hopens : OpensLine before) (hends : EndsLine after)
    (htarget : target.kind.isVariable = true) (harrow : arrow.kind = .assign)
    (hread : (readExpression options span).result = .ok expression)
    (hlone : ∀ t, span = [t] → t.kind.isVariable = false) :
    (Session.ofTokens options (before ++ (span ++ arrow :: target :: after))).compile.result =
      compile options source := by
  obtain ⟨body, -, hbody, -, hinside, -⟩ := exists_body_of_tokenize htokens
  have hline : OnLine (target :: arrow :: span) := by
    refine List.forall_mem_cons.2 ⟨(Kind.opensNothing_of_isVariable htarget).inside,
      List.forall_mem_cons.2 ⟨by rw [harrow]; rfl, endsLine_of_read hread⟩⟩
  -- The statement does not end the program: the token that does is behind the line.
  obtain ⟨behind, rfl, rfl⟩ := exists_behind_line (target :: arrow :: span) rfl hline
    (List.cons_ne_nil _ _) hbody
  have hscanned : IsScanned span := by
    intro t ht
    apply Kind.isScanned_of_isInside
    apply hinside
    simp [ht]
  have hends' : EndsLine behind := by
    intro t ht
    apply hends
    rw [List.head?_append, Option.mem_def.1 ht]
    exact rfl
  have hstatements :=
    interchangeable_store hopens hends' htarget harrow hscanned hread hlone
  have hsame := hstatements.compile_eq htitle (lastLine source.toList)
  have hbody' : before ++ (span ++ arrow :: target ::
      (behind ++ [.endOfFile (lastLine source.toList)])) =
      (before ++ ((span ++ [arrow, target]) ++ behind)) ++
        [.endOfFile (lastLine source.toList)] := by
    simp
  rw [compile_eq, htokens, hbody]
  dsimp only
  rw [hbody', ofTokens_append_endOfFile, ofTokens_append_endOfFile]
  exact hsame.symm

/-- The body of a conditional, with an expression that starts with a parenthesis. -/
theorem compile_storeLine_parenthesis :
    compile .default "IF A == 1 THEN\n(A + 2) -> B\nEND" =
      compile .default "IF A == 1 THEN\nB -> (A + 2)\nEND" := by
  have hassigned : tokenize "IF A == 1 THEN\nB -> (A + 2)\nEND" = .ok
      [⟨.keyword .ifWord, none, 1⟩, ⟨.var .scalar, some "A", 1⟩, ⟨.comparison .equal, none, 1⟩,
        ⟨.literal .int, some "1", 1⟩, ⟨.keyword .thenWord, none, 1⟩, ⟨.lineBreak, none, 1⟩,
        ⟨.var .scalar, some "B", 2⟩, ⟨.assign, none, 2⟩, ⟨.openParen, none, 2⟩,
        ⟨.var .scalar, some "A", 2⟩, ⟨.operator .plus, none, 2⟩, ⟨.literal .int, some "2", 2⟩,
        ⟨.closeParen, none, 2⟩, ⟨.lineBreak, none, 2⟩, ⟨.keyword .endWord, none, 3⟩,
        .endOfFile 3] := by
    cbv
  have hstored : tokenize "IF A == 1 THEN\n(A + 2) -> B\nEND" = .ok
      [⟨.keyword .ifWord, none, 1⟩, ⟨.var .scalar, some "A", 1⟩, ⟨.comparison .equal, none, 1⟩,
        ⟨.literal .int, some "1", 1⟩, ⟨.keyword .thenWord, none, 1⟩, ⟨.lineBreak, none, 1⟩,
        ⟨.openParen, none, 2⟩, ⟨.var .scalar, some "A", 2⟩, ⟨.operator .plus, none, 2⟩,
        ⟨.literal .int, some "2", 2⟩, ⟨.closeParen, none, 2⟩, ⟨.assign, none, 2⟩,
        ⟨.var .scalar, some "B", 2⟩, ⟨.lineBreak, none, 2⟩, ⟨.keyword .endWord, none, 3⟩,
        .endOfFile 3] := by
    cbv
  rw [compile_eq, hstored, ← compile_storeLine .default _
    [⟨.keyword .ifWord, none, 1⟩, ⟨.var .scalar, some "A", 1⟩, ⟨.comparison .equal, none, 1⟩,
      ⟨.literal .int, some "1", 1⟩, ⟨.keyword .thenWord, none, 1⟩, ⟨.lineBreak, none, 1⟩]
    [⟨.openParen, none, 2⟩, ⟨.var .scalar, some "A", 2⟩, ⟨.operator .plus, none, 2⟩,
      ⟨.literal .int, some "2", 2⟩, ⟨.closeParen, none, 2⟩]
    [⟨.lineBreak, none, 2⟩, ⟨.keyword .endWord, none, 3⟩, .endOfFile 3]
    ⟨.assign, none, 2⟩ ⟨.var .scalar, some "B", 2⟩ _ rfl hassigned (by simp [OpensLine])
    (by simp [EndsLine, Kind.endsLine]) rfl rfl rfl (by intro t hsingle; cases hsingle)]
  rfl

end CalcLang
