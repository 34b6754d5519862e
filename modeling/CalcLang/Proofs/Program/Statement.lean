import CalcLang.Proofs.Program.Grammar
import CalcLang.Proofs.Program.Moves

/-! # Reading simple statements

    The reader of statements without statements inside against their grammar:

    * `readFixed_eq_ok`: the statements with a fixed number of operands are all read in one way.
    * `outcome_of_fixed`, `outcome_of_opensNothing`: what is read is a simple statement of the
      grammar, and what is skipped starts none.
    * `IsSimple.reads`: a simple statement of the grammar is read.
    * `IsStray.reads`: under a lenient policy, a token that starts no statement is skipped. -/

namespace CalcLang

open Reading

variable {options : ReadOptions} {readBlock : BlockEnd → Reading (List Node)} {s s' : Session}
  {before tokens span after rest line : List Token} {token arrow target : Token} {tree : Node}

/-! ### Lines -/

theorem atLineStart_eq : s.atLineStart = true ↔ OpensLine s.passed.reverse := by
  unfold Session.atLineStart OpensLine
  rw [List.getLast?_reverse]
  cases s.passed <;> simp [Token.isLineBreak]

theorem takeWhile_line (hline : OnLine span) (hends : EndsLine after) :
    (span ++ after).takeWhile (!·.kind.endsLine) = span := by
  have hall : ∀ t ∈ span, (!t.kind.endsLine) = true := by
    intro t ht
    rw [hline t ht]
    rfl
  rw [List.takeWhile_append_of_pos hall]
  cases after with
  | nil => simp
  | cons first rest =>
    have hfirst := hends first rfl
    simp [hfirst]

theorem restOfLine_eq (hahead : s.ahead = span ++ after) (hline : OnLine span)
    (hends : EndsLine after) : s.restOfLine = span := by
  rw [Session.restOfLine, hahead]
  exact takeWhile_line hline hends

/-- Any tokens start with the rest of their line. -/
theorem exists_line (here : List Token) :
    ∃ span after, here = span ++ after ∧ OnLine span ∧ EndsLine after := by
  refine ⟨here.takeWhile (!·.kind.endsLine), here.dropWhile (!·.kind.endsLine),
    List.takeWhile_append_dropWhile.symm, ?_, ?_⟩
  · intro t ht
    simpa using List.all_eq_true.1 List.all_takeWhile t ht
  · intro t ht
    have hhead := List.head?_dropWhile_not (fun t : Token => !t.kind.endsLine) here
    rw [Option.mem_def.1 ht] at hhead
    simpa using hhead

/-! ### Fixed operands -/

/-- Passes words of the kinds that are asked for. -/
def expectAll : List ((Kind → Bool) × Fault) → Reading (List Token)
  | [] => pure []
  | (allowed, fault) :: shape => do
    let token ← expect allowed fault
    let operands ← expectAll shape
    pure (token :: operands)

theorem expectAll_eq_ok {shape : List ((Kind → Bool) × Fault)}
    (hend : ∀ entry ∈ shape, entry.1 .endOfFile = false) :
    expectAll shape s = .ok tokens s' ↔
      Fits (shape.map Prod.fst) tokens ∧
        ∃ after, s.ahead = tokens ++ after ∧ s' = s.past tokens [] := by
  induction shape generalizing s s' tokens with
  | nil =>
    rw [expectAll, pure_eq_ok]
    cases tokens with
    | nil => simp [Fits, eq_comm]
    | cons token tokens => simp [Fits]
  | cons entry shape ih =>
    obtain ⟨allowed, fault⟩ := entry
    have hallowed := hend _ (List.mem_cons_self ..)
    have ih {s s' : Session} {tokens : List Token} :=
      @ih s s' tokens fun entry hentry => hend entry (List.mem_cons_of_mem _ hentry)
    simp only [expectAll, bind_eq_ok, expect_eq_ok hallowed, ih, pure_eq_ok]
    constructor
    · rintro ⟨token, _, ⟨htoken, rest, hahead, rfl⟩, operands, _, ⟨hfits, after, hrest, rfl⟩,
        rfl, rfl⟩
      rw [Session.ahead_past [token] [] hahead] at hrest
      exact ⟨⟨htoken, hfits⟩, after, by rw [hahead, hrest]; rfl, by simp⟩
    · rintro ⟨hfits, after, hahead, rfl⟩
      cases tokens with
      | nil => cases hfits
      | cons token tokens =>
        refine ⟨token, s.past [token] [], ⟨hfits.1, tokens ++ after, hahead, rfl⟩, tokens,
          (s.past [token] []).past tokens [], ⟨hfits.2, after, ?_, rfl⟩, rfl, by simp⟩
        exact Session.ahead_past [token] [] hahead

/-- Reads a statement with a fixed number of operands. -/
def readFixed (shape : Token → List ((Kind → Bool) × Fault)) : Reading Node := do
  let keyword ← take
  let operands ← expectAll (shape keyword)
  pure (.branch keyword (operands.map .leaf))

theorem readFixed_eq_ok {shape : Token → List ((Kind → Bool) × Fault)}
    (hnext : s.next.kind ≠ .endOfFile)
    (hend : ∀ keyword, ∀ entry ∈ shape keyword, entry.1 .endOfFile = false) :
    readFixed shape s = .ok tree s' ↔
      ∃ keyword operands after, s.ahead = keyword :: (operands ++ after) ∧
        Fits ((shape keyword).map Prod.fst) operands ∧
        tree = .branch keyword (operands.map .leaf) ∧ s' = s.past (keyword :: operands) [] := by
  simp only [readFixed, bind_eq_ok, take_eq_ok hnext, expectAll_eq_ok (hend _), pure_eq_ok]
  constructor
  · rintro ⟨keyword, _, ⟨rest, hahead, rfl⟩, operands, _, ⟨hfits, after, hrest, rfl⟩, rfl, rfl⟩
    rw [Session.ahead_past [keyword] [] hahead] at hrest
    exact ⟨keyword, operands, after, by rw [hahead, hrest], hfits, rfl, by simp⟩
  · rintro ⟨keyword, operands, after, hahead, hfits, rfl, rfl⟩
    refine ⟨keyword, s.past [keyword] [], ⟨operands ++ after, hahead, rfl⟩, operands,
      (s.past [keyword] []).past operands [], ⟨hfits, after, ?_, rfl⟩, rfl, by simp⟩
    exact Session.ahead_past [keyword] [] hahead

/-! The readers of these statements differ in the operands and in where the statement may stand. -/

theorem readVersion_eq : readVersion = readFixed fun _ =>
    [((· == .literal .int), .expectedVersion .major),
      ((· == .literal .int), .expectedVersion .minor),
      ((· == .literal .int), .expectedVersion .patch)] := by
  simp [readVersion, readFixed, expectAll]

theorem readImplicit_eq : readImplicit = readFixed fun _ =>
    [(Kind.isDataType, .expectedDataType), (Kind.isVariable, .expectedImplicitVariable)] := by
  simp [readImplicit, readFixed, expectAll]

theorem readDisp_eq : readDisp = readFixed fun _ =>
    [(fun kind => kind.isVariable || kind.isLiteral, .expectedOutput)] := by
  simp [readDisp, readFixed, expectAll]

theorem readDispStr_eq : readDispStr = readFixed fun _ =>
    [(fun kind => kind == .literal .string || kind.isVariable, .expectedTextOutput)] := by
  simp [readDispStr, readFixed, expectAll]

theorem readTitle_eq_ok : readTitle s = .ok tree s' ↔ s.passed = [] ∧
    readFixed (fun _ => [((· == .literal .string), .expectedTitle)]) s = .ok tree s' := by
  simp only [readTitle, run_get_bind, readFixed, expectAll, bind_eq_ok (x := take),
    require_bind_eq_ok, List.isEmpty_iff]
  simp [and_left_comm]

theorem readDeclaration_eq_ok : readDeclaration s = .ok tree s' ↔ OpensLine s.passed.reverse ∧
    readFixed (fun type => [(Kind.isVariable, .expectedVariable type.kind)]) s = .ok tree s' := by
  rw [readDeclaration, run_get_bind, require_bind_eq_ok, atLineStart_eq]
  simp [readFixed, expectAll]

theorem readJump_eq_ok : readJump s = .ok tree s' ↔ OpensLine s.passed.reverse ∧
    readFixed (fun keyword => [(Kind.isVariable, .expectedLabel keyword.kind)]) s =
      .ok tree s' := by
  rw [readJump, run_get_bind, require_bind_eq_ok, atLineStart_eq]
  simp [readFixed, expectAll]

/-! ### Routes

    What a statement is depends on the kind of its first token, and on more than that only if the
    kind is none of a statement of its own. -/

/-- The session at the start of a statement that is traced. -/
def Session.traced (s : Session) : Session :=
  s.past [] (if s.options.debug then [⟨.debug,
    "statement " ++ s.next.display ++ " on line " ++ toString s.next.line⟩] else [])

theorem moves_traced (s : Session) : s.Moves [] [] s.traced := .past [] _ rfl

theorem readStatement_conditional (h : s.next.kind = .keyword .ifWord) :
    readStatement readBlock s = (some <$> readConditional readBlock) s.traced := by
  rw [readStatement, run_get_bind, run_bind, run_trace, h]
  rfl

theorem readStatement_call (h : s.next.kind = .keyword .call) :
    readStatement readBlock s = .error (.unsupported .call s.next.line) s.traced := by
  rw [readStatement, run_get_bind, run_bind, run_trace, h]
  rfl

theorem readStatement_other (h : s.next.kind.OpensNothing) :
    readStatement readBlock s =
      (if s.next.kind.isVariable ∧ (s.ahead[1]?.map Token.kind) = some .assign then
        some <$> readAssignment
      else
        match if s.atLineStart then storeParts? s.restOfLine else none with
        | some (span, arrow, target) => some <$> readStore span arrow target
        | none => skipUnknown) s.traced := by
  obtain ⟨-, hoperands, hconditional, hcall⟩ := h
  rw [readStatement, run_get_bind, run_bind, run_trace]
  generalize s.next.kind = kind at hoperands hconditional hcall ⊢
  -- A keyword that opens nothing has fallen through to the last alternative, as has any other kind.
  cases kind with
  | keyword keyword =>
    cases keyword with
    | thenWord | elseWord | endWord => rfl
    | ifWord => exact absurd rfl hconditional
    | call => exact absurd rfl hcall
    | _ => cases hoperands
  | dataType type => cases hoperands
  | _ => rfl

section Fixed

variable {kind : Kind} {shape : List (Kind → Bool)} {statement : Option Node}

/-- The words of a statement with a fixed number of operands, which a reading passes. -/
structure PassesFixed (s : Session) (shape : List (Kind → Bool)) (statement : Option Node)
    (s' : Session) (keyword : Token) (operands after : List Token) : Prop where
  ahead : s.ahead = keyword :: (operands ++ after)
  fits : Fits shape operands
  statement : statement = some (.branch keyword (operands.map .leaf))
  session : s' = s.traced.past (keyword :: operands) []

theorem readStatement_route {x : Reading Node} {place : Prop}
    {faults : Token → List ((Kind → Bool) × Fault)} (hkind : s.next.kind = kind)
    (hshape : kind.operands? = some shape)
    (hx : ∀ {tree s'}, x s.traced = .ok tree s' ↔
      place ∧ readFixed faults s.traced = .ok tree s')
    (hfaults : ∀ keyword, (faults keyword).map Prod.fst = shape)
    (hend : ∀ entry ∈ shape, entry .endOfFile = false) :
    (some <$> x) s.traced = .ok statement s' ↔
      place ∧ ∃ keyword operands after,
        PassesFixed s shape statement s' keyword operands after := by
  have hinside : s.traced.next.kind ≠ .endOfFile := by
    intro h
    rw [← hkind, show s.next.kind = .endOfFile from h] at hshape
    cases hshape
  have hend' : ∀ keyword, ∀ entry ∈ faults keyword, entry.1 .endOfFile = false := by
    intro keyword entry hentry
    exact hend _ (hfaults keyword ▸ List.mem_map_of_mem hentry)
  rw [map_eq_ok]
  simp only [hx, readFixed_eq_ok hinside hend', hfaults]
  constructor
  · rintro ⟨_, ⟨hplace, keyword, operands, after, hahead, hfits, rfl, hs'⟩, rfl⟩
    exact ⟨hplace, keyword, operands, after, hahead, hfits, rfl, hs'⟩
  · rintro ⟨hplace, keyword, operands, after, hahead, hfits, rfl, hs'⟩
    exact ⟨_, ⟨hplace, keyword, operands, after, hahead, hfits, rfl, hs'⟩, rfl⟩

/-- A statement that may stand anywhere. -/
theorem anywhere_iff {x y : Reading Node} (h : x = y) :
    x s = .ok tree s' ↔ True ∧ y s = .ok tree s' := by
  rw [h, true_and]

/-- A token whose statement has a fixed number of operands. -/
theorem readStatement_fixed (hkind : s.next.kind = kind) (hshape : kind.operands? = some shape) :
    readStatement readBlock s = .ok statement s' ↔
      kind.MayFollow s.passed.reverse ∧ ∃ keyword operands after,
        PassesFixed s shape statement s' keyword operands after := by
  rw [readStatement, run_get_bind, run_bind, run_trace, hkind]
  cases kind with
  | keyword keyword =>
    cases keyword with
    | program =>
      cases hshape
      rw [Kind.MayFollow, List.reverse_eq_nil_iff]
      exact readStatement_route hkind rfl readTitle_eq_ok (fun _ => rfl) (by simp)
    | version =>
      cases hshape
      exact readStatement_route hkind rfl (anywhere_iff readVersion_eq) (fun _ => rfl) (by simp)
    | implicit =>
      cases hshape
      exact readStatement_route hkind rfl (anywhere_iff readImplicit_eq) (fun _ => rfl)
        (by simp [Kind.isDataType, Kind.isVariable])
    | label =>
      cases hshape
      exact readStatement_route hkind rfl readJump_eq_ok (fun _ => rfl)
        (by simp [Kind.isVariable])
    | goto =>
      cases hshape
      exact readStatement_route hkind rfl readJump_eq_ok (fun _ => rfl)
        (by simp [Kind.isVariable])
    | disp =>
      cases hshape
      exact readStatement_route hkind rfl (anywhere_iff readDisp_eq) (fun _ => rfl)
        (by simp [Kind.isVariable, Kind.isLiteral])
    | dispStr =>
      cases hshape
      exact readStatement_route hkind rfl (anywhere_iff readDispStr_eq) (fun _ => rfl)
        (by simp [Kind.isVariable])
    | _ => cases hshape
  | dataType type =>
    cases hshape
    exact readStatement_route hkind rfl readDeclaration_eq_ok (fun _ => rfl)
      (by simp [Kind.isVariable])
  | _ => cases hshape

end Fixed

/-! ### Assignments -/

theorem readAssignment_eq_ok (hahead : s.ahead = target :: arrow :: (span ++ after))
    (htarget : target.kind.isVariable = true) (harrow : arrow.kind = .assign) (hline : OnLine span)
    (hends : EndsLine after) :
    readAssignment s = .ok tree s' ↔ span ≠ [] ∧ ∃ expression,
      (readExpression s.options span).result = .ok expression ∧
        tree = .branch arrow [.leaf target, expression] ∧
        s' = s.past (target :: arrow :: span) (readExpression s.options span).records := by
  have htargetInside : target.kind ≠ .endOfFile := by
    intro hend
    rw [hend] at htarget
    cases htarget
  have hfirst := take_ok hahead htargetInside
  have hahead' := Session.ahead_past [target] [] hahead
  have hsecond := take_ok hahead' (by rw [harrow]; nofun)
  have hahead'' := Session.ahead_past [target, arrow] [] hahead
  rw [readAssignment, run_bind, hfirst]
  simp only
  rw [run_bind, hsecond]
  simp only [Session.past_past, List.cons_append, List.nil_append]
  rw [run_get_bind, restOfLine_eq hahead'' hline hends, require_bind_eq_ok]
  simp only [bind_eq_ok, ofLogged_eq_ok, modify_eq_ok, pure_eq_ok]
  have hskip (records : List Record) :
      ((s.past [target, arrow] []).past [] records).skip span.length =
        s.past (target :: arrow :: span) records := by
    rw [Session.skip_eq_past span (Session.ahead_past [] records hahead'')]
    simp
  constructor
  · rintro ⟨hspan, expression, _, ⟨hread, rfl⟩, _, _, rfl, rfl, rfl⟩
    exact ⟨by simpa using hspan, expression, hread, rfl, hskip _⟩
  · rintro ⟨hspan, expression, hread, rfl, rfl⟩
    exact ⟨by simpa using hspan, expression, _, ⟨hread, rfl⟩, (), _, rfl, rfl, hskip _⟩

theorem storeParts?_eq_some_iff :
    storeParts? line = some (span, arrow, target) ↔ IsStoreLine line span arrow target := by
  constructor
  · intro h
    unfold storeParts? at h
    split at h
    · next target' arrow' last before hreverse =>
      simp only [Option.ite_none_right_eq_some, Option.some.injEq, Prod.mk.injEq] at h
      obtain ⟨⟨harrow, htarget, hcount⟩, rfl, rfl, rfl⟩ := h
      have hparts : line = (last :: before).reverse ++ [arrow', target'] := by
        rw [← List.reverse_reverse line, hreverse]
        simp
      refine ⟨hparts, by simp, ?_, harrow, htarget⟩
      have hnone : (last :: before).reverse.countP (·.kind == .assign) = 0 := by
        rw [hparts, List.countP_append, List.countP_cons_of_pos (by simp [harrow])] at hcount
        omega
      intro t ht
      simpa using List.countP_eq_zero.1 hnone t ht
    · cases h
  · intro h
    obtain ⟨last, before, hspan⟩ : ∃ last before, span.reverse = last :: before :=
      List.exists_cons_of_ne_nil (by simpa using h.nonempty)
    have hreverse : line.reverse = target :: arrow :: last :: before := by
      rw [h.parts, List.reverse_append, hspan]
      rfl
    have hnone : span.countP (·.kind == .assign) = 0 := by
      rw [List.countP_eq_zero]
      intro t ht
      simpa using h.others t ht
    have htarget : target.kind ≠ .assign := by
      intro hassign
      have hvariable := h.target
      rw [hassign] at hvariable
      cases hvariable
    have hcount : line.countP (·.kind == .assign) = 1 := by
      simp [h.parts, List.countP_append, hnone, h.arrow, htarget]
    rw [storeParts?, hreverse]
    simp only
    rw [if_pos ⟨h.arrow, h.target, hcount⟩, ← hspan, List.reverse_reverse]

theorem readStore_eq_ok (hahead : s.ahead = span ++ [arrow, target] ++ after) :
    readStore span arrow target s = .ok tree s' ↔ ∃ expression,
      (readExpression s.options span).result = .ok expression ∧
        tree = .branch arrow [.leaf target, expression] ∧
        s' = s.past (span ++ [arrow, target]) (readExpression s.options span).records := by
  have hskip (records : List Record) : (s.past [] records).skip (span.length + 2) =
      s.past (span ++ [arrow, target]) records := by
    have hlength : span.length + 2 = (span ++ [arrow, target]).length := by simp
    have hpast : (s.past [] records).ahead = span ++ [arrow, target] ++ after :=
      Session.ahead_past [] records hahead
    rw [hlength, Session.skip_eq_past _ hpast]
    simp
  rw [readStore, run_get_bind]
  simp only [bind_eq_ok, ofLogged_eq_ok, modify_eq_ok, pure_eq_ok]
  constructor
  · rintro ⟨expression, _, ⟨hread, rfl⟩, _, _, rfl, rfl, rfl⟩
    exact ⟨expression, hread, rfl, hskip _⟩
  · rintro ⟨expression, hread, rfl, rfl⟩
    exact ⟨expression, _, ⟨hread, rfl⟩, (), _, rfl, rfl, hskip _⟩

/-! ### Skipped tokens -/

/-- The record that a token has been skipped. -/
def Record.ofSkipped (token : Token) : Record :=
  ⟨.warn, "line " ++ toString token.line ++ ": skipping unexpected token " ++ token.display⟩

theorem skipUnknown_eq_ok {statement : Option Node} (hahead : s.ahead = token :: rest)
    (htoken : token.kind ≠ .endOfFile) :
    skipUnknown s = .ok statement s' ↔
      s.options.unknownStatements = .skip ∧ statement = none ∧
        s' = { s.past [token] [.ofSkipped token] with
          diagnostics := s.diagnostics ++ [.ofSkipped token] } := by
  rw [skipUnknown, run_bind, take_ok hahead htoken]
  simp only
  rw [run_get_bind, require_bind_eq_ok, beq_iff_eq]
  simp only [bind_eq_ok, record, note, modify_eq_ok, pure_eq_ok]
  have hpast : ({ s.past [token] [] with
      log := s.log ++ [] ++ [Record.ofSkipped token]
      diagnostics := s.diagnostics ++ [Diagnostic.ofSkipped token] } : Session) =
      { s.past [token] [.ofSkipped token] with
        diagnostics := s.diagnostics ++ [.ofSkipped token] } := by
    simp [Session.past]
  constructor
  · rintro ⟨hpolicy, _, _, rfl, _, _, rfl, rfl, rfl⟩
    exact ⟨hpolicy, rfl, hpast⟩
  · rintro ⟨hpolicy, rfl, rfl⟩
    exact ⟨hpolicy, (), _, rfl, (), _, rfl, rfl, hpast⟩

/-! ### Statements without statements inside -/

/-- A session stands between some tokens. -/
structure Session.At (s : Session) (options : ReadOptions) (before here : List Token) : Prop where
  options : s.options = options
  before : s.passed.reverse = before
  here : s.ahead = here

theorem Session.Moves.at {skipped : List Token} (h : s.Moves tokens skipped s')
    (hat : s.At options before (tokens ++ after)) : s'.At options (before ++ tokens) after :=
  ⟨h.options.trans hat.options, by rw [h.before, hat.before], h.ahead_eq hat.here⟩

theorem moves_past {records : List Record} (hahead : s.ahead = tokens ++ after) :
    s.Moves tokens [] (s.traced.past tokens records) :=
  (moves_traced s).trans (.past tokens records hahead)

theorem Kind.OpensNothing.ne_endOfFile {kind : Kind} (h : kind.OpensNothing) :
    kind ≠ .endOfFile := by
  intro hend
  have hinside := h.inside
  rw [hend] at hinside
  cases hinside

theorem Kind.opensNothing_of_isVariable {kind : Kind} (h : kind.isVariable = true) :
    kind.OpensNothing := by
  cases kind <;> simp_all [isVariable]
  exact ⟨rfl, rfl, nofun, nofun⟩

theorem Kind.opensNothing_of_opensExpression {kind : Kind} (h : kind.opensExpression = true) :
    kind.OpensNothing := by
  cases kind with
  | keyword word => cases h
  | dataType type => cases h
  | lineBreak | endOfFile => cases h
  | _ => exact ⟨rfl, rfl, nofun, nofun⟩

theorem readStatement_assignment (hahead : s.ahead = target :: arrow :: rest)
    (htarget : target.kind.isVariable = true) (harrow : arrow.kind = .assign) :
    readStatement readBlock s = (some <$> readAssignment) s.traced := by
  have hnext := Session.next_eq hahead
  have hassign : target.kind.isVariable = true ∧ (s.ahead[1]?.map Token.kind) = some .assign := by
    rw [hahead]
    exact ⟨htarget, congrArg some harrow⟩
  rw [readStatement_other (hnext ▸ Kind.opensNothing_of_isVariable htarget), hnext, if_pos hassign]

/-- The first of the two ways to assign is excluded for a token. -/
theorem readStatement_noAssignment (hahead : s.ahead = token :: rest)
    (hkind : token.kind.OpensNothing)
    (hnone : token.kind.isVariable = true → ∀ t ∈ rest.head?, t.kind ≠ .assign) :
    readStatement readBlock s =
      (match if s.atLineStart then storeParts? s.restOfLine else none with
        | some (span, arrow, target) => some <$> readStore span arrow target
        | none => skipUnknown) s.traced := by
  have hnext := Session.next_eq hahead
  rw [readStatement_other (hnext ▸ hkind), hnext, if_neg]
  rintro ⟨hvariable, harrow⟩
  rw [hahead, List.getElem?_cons_succ, ← List.head?_eq_getElem?, Option.map_eq_some_iff] at harrow
  obtain ⟨arrow, harrow, hassign⟩ := harrow
  exact hnone hvariable arrow harrow hassign

theorem readStatement_store (hahead : s.ahead = token :: rest) (hkind : token.kind.OpensNothing)
    (hnone : token.kind.isVariable = true → ∀ t ∈ rest.head?, t.kind ≠ .assign)
    (hopens : OpensLine s.passed.reverse) (hparts : IsStoreLine s.restOfLine span arrow target) :
    readStatement readBlock s = (some <$> readStore span arrow target) s.traced := by
  rw [readStatement_noAssignment hahead hkind hnone, if_pos (atLineStart_eq.2 hopens),
    storeParts?_eq_some_iff.2 hparts]

theorem readStatement_stray (hahead : s.ahead = token :: rest)
    (h : IsStray s.passed.reverse token rest) :
    readStatement readBlock s = skipUnknown s.traced := by
  have hparts : (if s.atLineStart then storeParts? s.restOfLine else none) = none := by
    rw [Option.eq_none_iff_forall_ne_some]
    intro ⟨span, arrow, target⟩ hparts
    rw [Option.ite_none_right_eq_some, atLineStart_eq, storeParts?_eq_some_iff,
      Session.restOfLine, hahead] at hparts
    exact h.noStore hparts.1 span arrow target hparts.2
  rw [readStatement_noAssignment hahead h.kind h.noAssignment, hparts]

/-! ### From a reading to a derivation -/

theorem isSimple_of_readAssignment (hahead : s.ahead = target :: arrow :: rest)
    (htarget : target.kind.isVariable = true) (harrow : arrow.kind = .assign)
    (h : readAssignment s.traced = .ok tree s') :
    ∃ tokens, s.Moves tokens [] s' ∧
      IsSimple s.options s.passed.reverse tokens s'.ahead tree := by
  obtain ⟨span, after, rfl, hline, hends⟩ := exists_line rest
  obtain ⟨hspan, expression, hread, rfl, hs'⟩ :=
    (readAssignment_eq_ok (s := s.traced) hahead htarget harrow hline hends).1 h
  have hmoves : s.Moves (target :: arrow :: span) [] s' := hs' ▸ moves_past hahead
  refine ⟨_, hmoves, ?_⟩
  rw [hmoves.ahead_eq hahead]
  exact .assignment htarget harrow hspan hline hends hread

theorem isSimple_of_readStore (hahead : s.ahead = token :: rest)
    (hnone : token.kind.isVariable = true → ∀ t ∈ rest.head?, t.kind ≠ .assign)
    (hopens : OpensLine s.passed.reverse) (hparts : IsStoreLine s.restOfLine span arrow target)
    (h : readStore span arrow target s.traced = .ok tree s') :
    ∃ tokens, s.Moves tokens [] s' ∧
      IsSimple s.options s.passed.reverse tokens s'.ahead tree := by
  obtain ⟨line, after, hline', hline, hends⟩ := exists_line s.ahead
  rw [restOfLine_eq hline' hline hends] at hparts
  -- Otherwise the line would have been read as `variable -> variable` before.
  have hlone : ∀ t, span = [t] → t.kind.isVariable = false := by
    intro t hspan
    rw [hparts.parts, hahead, hspan] at hline'
    cases hline'
    cases hvariable : token.kind.isVariable with
    | false => rfl
    | true => exact absurd hparts.arrow (hnone hvariable arrow rfl)
  have hahead' : s.ahead = span ++ [arrow, target] ++ after := by
    rw [hline', hparts.parts]
  obtain ⟨expression, hread, rfl, hs'⟩ := (readStore_eq_ok (s := s.traced) hahead').1 h
  have hmoves : s.Moves line [] s' := by
    rw [hparts.parts, hs']
    exact moves_past hahead'
  refine ⟨line, hmoves, ?_⟩
  rw [hmoves.ahead_eq hline']
  exact .store hopens hparts hlone hline hends hread

theorem moves_of_skipUnknown {statement : Option Node} (hahead : s.ahead = token :: rest)
    (htoken : token.kind ≠ .endOfFile) :
    skipUnknown s.traced = .ok statement s' →
      statement = none ∧ s.options.unknownStatements = .skip ∧ s.Moves [token] [token] s' := by
  intro h
  obtain ⟨hpolicy, rfl, rfl⟩ := (skipUnknown_eq_ok (s := s.traced) hahead htoken).1 h
  have hmoves : s.Moves [token] [] (s.traced.past [token] [.ofSkipped token]) :=
    moves_past hahead
  exact ⟨rfl, hpolicy, hmoves.ahead, hmoves.passed, rfl, rfl, rfl⟩

/-- What reading a statement has done: it has read one of the grammar, or skipped a token that starts
    none. -/
inductive StatementOutcome (s : Session) : Option Node → Session → Prop
  | statement {tokens skipped : List Token} {tree : Node} {s' : Session}
      (hmoves : s.Moves tokens skipped s')
      (h : IsStatement s.options s.passed.reverse tokens s'.ahead skipped tree) :
      StatementOutcome s (some tree) s'
  | skip {token : Token} {s' : Session} (hmoves : s.Moves [token] [token] s')
      (hpolicy : s.options.unknownStatements = .skip)
      (h : IsStray s.passed.reverse token s'.ahead) : StatementOutcome s none s'

/-- What is read of a token that opens no statement of its own. -/
theorem outcome_of_opensNothing {statement : Option Node} (hahead : s.ahead = token :: rest)
    (hkind : token.kind.OpensNothing) (h : readStatement readBlock s = .ok statement s') :
    StatementOutcome s statement s' := by
  -- Three ways are left, tried in this order: `variable -> e`, `e -> variable` and skipping.
  by_cases hassign : token.kind.isVariable = true → ∀ t ∈ rest.head?, t.kind ≠ .assign
  · by_cases hstore : OpensLine s.passed.reverse → ∀ span arrow target,
        ¬ IsStoreLine s.restOfLine span arrow target
    · have hstray : IsStray s.passed.reverse token rest := by
        refine ⟨hkind, hassign, ?_⟩
        rw [← hahead]
        exact hstore
      rw [readStatement_stray hahead hstray] at h
      obtain ⟨rfl, hpolicy, hmoves⟩ := moves_of_skipUnknown hahead hkind.ne_endOfFile h
      refine .skip hmoves hpolicy ?_
      rw [hmoves.ahead_eq hahead]
      exact hstray
    · simp only [Classical.not_forall, Classical.not_not, exists_prop] at hstore
      obtain ⟨hopens, span, arrow, target, hparts⟩ := hstore
      rw [readStatement_store hahead hkind hassign hopens hparts, map_eq_ok] at h
      obtain ⟨tree, h, rfl⟩ := h
      obtain ⟨tokens, hmoves, hsimple⟩ := isSimple_of_readStore hahead hassign hopens hparts h
      exact .statement hmoves (.simple hsimple)
  · simp only [Classical.not_forall, Classical.not_not, exists_prop] at hassign
    obtain ⟨htarget, arrow, harrow, hassign⟩ := hassign
    obtain ⟨rest, rfl⟩ : ∃ later, rest = arrow :: later := by
      cases rest with
      | nil => cases harrow
      | cons first later => cases harrow; exact ⟨later, rfl⟩
    rw [readStatement_assignment hahead htarget hassign, map_eq_ok] at h
    obtain ⟨tree, h, rfl⟩ := h
    obtain ⟨tokens, hmoves, hsimple⟩ := isSimple_of_readAssignment hahead htarget hassign h
    exact .statement hmoves (.simple hsimple)

/-- What is read of a token whose statement has a fixed number of operands. -/
theorem outcome_of_fixed {statement : Option Node} {shape : List (Kind → Bool)}
    (hshape : s.next.kind.operands? = some shape)
    (h : readStatement readBlock s = .ok statement s') : StatementOutcome s statement s' := by
  obtain ⟨hplace, keyword, operands, after, hahead, hfits, rfl, hs'⟩ :=
    (readStatement_fixed rfl hshape).1 h
  have hmoves : s.Moves (keyword :: operands) [] s' := hs' ▸ moves_past hahead
  rw [Session.next_eq hahead] at hshape hplace
  refine .statement hmoves (.simple ?_)
  rw [hmoves.ahead_eq hahead]
  exact .fixed hshape hplace hfits

/-! ### From a derivation to a reading -/

/-- Tokens of a program. -/
def IsScanned (span : List Token) : Prop := ∀ t ∈ span, t.kind.isScanned = true

theorem IsScanned.of_append_left {more : List Token} (h : IsScanned (tokens ++ more)) :
    IsScanned tokens :=
  fun t ht => h t (List.mem_append_left _ ht)

theorem IsScanned.of_append_right {more : List Token} (h : IsScanned (tokens ++ more)) :
    IsScanned more :=
  fun t ht => h t (List.mem_append_right _ ht)

theorem IsScanned.of_cons (h : IsScanned (token :: rest)) : IsScanned rest :=
  fun t ht => h t (List.mem_cons_of_mem _ ht)

/-- A line that stores starts as an expression may. -/
theorem IsStoreLine.exists_head {expression : Node} (hparts : IsStoreLine line span arrow target)
    (hread : (readExpression options span).result = .ok expression) :
    ∃ first rest, span = first :: rest ∧ first.kind.opensExpression = true := by
  obtain ⟨first, rest, rfl⟩ := List.exists_cons_of_ne_nil hparts.nonempty
  exact ⟨first, rest, rfl, opensExpression_of_read hread⟩

/-- A simple statement of the grammar is read as its tree. -/
theorem IsSimple.reads (h : IsSimple options before tokens after tree)
    (hat : s.At options before (tokens ++ after)) :
    ∃ s', readStatement readBlock s = .ok (some tree) s' ∧ s.Moves tokens [] s' := by
  obtain ⟨rfl, rfl, hahead⟩ := hat
  cases h with
  | fixed hshape hplace hfits =>
    refine ⟨_, (readStatement_fixed (by rw [Session.next_eq hahead]) hshape).2
      ⟨hplace, _, _, after, hahead, hfits, rfl, rfl⟩, moves_past hahead⟩
  | @assignment target arrow span _ expression htarget harrow hspan hline hends hread =>
    have hassigned := (readAssignment_eq_ok (s := s.traced) hahead htarget harrow hline hends).2
      ⟨hspan, expression, hread, rfl, rfl⟩
    have hstatement := map_ok some hassigned
    rw [← readStatement_assignment hahead htarget harrow] at hstatement
    exact ⟨_, hstatement, moves_past hahead⟩
  | @store arrow target _ span _ expression hopens hparts hlone hline hends hread =>
    have hahead' : s.ahead = span ++ [arrow, target] ++ after := by
      rw [hahead, hparts.parts]
    obtain ⟨first, rest, rfl, hfirst⟩ := hparts.exists_head hread
    have hkind := Kind.opensNothing_of_opensExpression hfirst
    -- A lone variable is excluded, and behind a longer start there is no arrow.
    have hnone : first.kind.isVariable = true →
        ∀ t ∈ (rest ++ [arrow, target] ++ after).head?, t.kind ≠ .assign := by
      intro hvariable t ht
      cases rest with
      | nil => rw [hlone first rfl] at hvariable; cases hvariable
      | cons second rest =>
        cases ht
        exact hparts.others t (by simp)
    have hstored := (readStore_eq_ok (s := s.traced) hahead').2 ⟨expression, hread, rfl, rfl⟩
    have hparts' : IsStoreLine s.restOfLine (first :: rest) arrow target := by
      rw [restOfLine_eq hahead hline hends]
      exact hparts
    have hstatement := map_ok some hstored
    rw [← readStatement_store hahead' hkind hnone hopens hparts'] at hstatement
    refine ⟨_, hstatement, ?_⟩
    rw [hparts.parts]
    exact moves_past hahead'

/-- Under a lenient policy, a token that starts no statement is skipped. -/
theorem IsStray.reads (h : IsStray before token after) (hat : s.At options before (token :: after))
    (hpolicy : options.unknownStatements = .skip) :
    ∃ s', readStatement readBlock s = .ok none s' ∧ s.Moves [token] [token] s' := by
  obtain ⟨rfl, rfl, hahead⟩ := hat
  have hskipped := (skipUnknown_eq_ok (s := s.traced) hahead h.kind.ne_endOfFile).2
    ⟨hpolicy, rfl, rfl⟩
  have hmoves : s.Moves [token] [] (s.traced.past [token] [.ofSkipped token]) :=
    moves_past hahead
  rw [readStatement_stray hahead h]
  exact ⟨_, hskipped, hmoves.ahead, hmoves.passed, rfl, rfl, rfl⟩

end CalcLang
