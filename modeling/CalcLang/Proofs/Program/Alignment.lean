import CalcLang.Proofs.Program.Compilation

/-! # Two programs of different lengths

    Two programs that are read alike although not token by token: one of them may have tokens that
    the other one has not, or others in their place.  So unlike `Pairing`, this compares what is
    ahead of two sessions only as far as the next reading looks.

    * `Session.LooksLike`: two sessions in which a reader of words and spans sees the same.
    * `Reading.Carries`: a reading that does the same in related sessions and leaves them related.
    * `Alignment`: a relation of sessions inside of statements and one of sessions between them, and
      what a comparison of two programs has to know about them.
    * `readRowsWithin`: a block, read with one step for a whole row of line breaks.
    * `Alignment.compile_eq`: two programs that are aligned are compiled alike. -/

namespace CalcLang

open Reading

variable {s t : Session} {count : Nat}

/-! ### Sessions -/

/-- A token that ends no line is no line break. -/
theorem isLineBreak_of_endsLine {token : Token} (h : token.kind.endsLine = false) :
    token.isLineBreak = false := by
  rw [Token.isLineBreak, beq_eq_false_iff_ne]
  intro hbreak
  rw [hbreak] at h
  cases h

namespace Session

/-- A word is on the line ahead. -/
theorem length_restOfLine_pos (hword : s.next.isLineBreak = false)
    (hinside : s.next.kind ≠ .endOfFile) : 1 ≤ s.restOfLine.length := by
  unfold restOfLine
  unfold next at hword hinside
  cases hahead : s.ahead with
  | nil =>
    rw [hahead] at hinside
    exact absurd rfl hinside
  | cons first rest =>
    rw [hahead] at hword hinside
    have hfirst : (!first.kind.endsLine) = true := by
      have hbreak : first.kind ≠ .lineBreak := ne_of_beq_false hword
      have hend : first.kind ≠ .endOfFile := hinside
      generalize first.kind = kind at hbreak hend
      cases kind with
      | lineBreak => exact absurd rfl hbreak
      | endOfFile => exact absurd rfl hend
      | _ => rfl
    rw [List.takeWhile_cons, if_pos hfirst]
    exact Nat.succ_le_succ (Nat.zero_le _)

/-- A session with no line break ahead passes none. -/
theorem skipLineBreaks_eq_self (h : s.next.isLineBreak = false) : s.skipLineBreaks = s.skip 0 := by
  unfold skipLineBreaks next at *
  cases hahead : s.ahead with
  | nil => rfl
  | cons first rest =>
    rw [hahead] at h
    have hfirst : first.isLineBreak = false := h
    rw [List.takeWhile_cons_of_neg (by rw [hfirst]; exact Bool.false_ne_true)]
    rfl

/-- Two sessions in which a reader of words and spans sees the same.  They may differ in what is
    passed and in what is ahead behind the line. -/
structure LooksLike (s t : Session) : Prop where
  options : s.options = t.options
  isEmpty_passed : s.passed.isEmpty = t.passed.isEmpty
  atLineStart : s.atLineStart = t.atLineStart
  next : s.next = t.next
  isEmpty_ahead : s.ahead.isEmpty = t.ahead.isEmpty
  restOfLine : s.restOfLine = t.restOfLine
  /-- The token behind the next one, if that is a word. -/
  second : 1 ≤ s.restOfLine.length → s.ahead[1]? = t.ahead[1]?
  diagnostics : s.diagnostics = t.diagnostics

/-- The session reads a statement at its next token, in every block. -/
def StartsStatement (s : Session) : Prop :=
  ∀ stop : BlockEnd, stop.step s.next.kind = .statement

end Session

/-! ### Readings -/

namespace Reading

variable {α β : Type} {R R' R'' : Session → Session → Prop} {x y : Reading α}
  {f : α → Reading β}

/-- The same comes of two readings: an error, or a value and sessions that are related. -/
inductive SameOutcome (R : Session → Session → Prop) :
    EStateM.Result ParseError Session α → EStateM.Result ParseError Session α → Prop where
  | ok (a : α) {s t : Session} (h : R s t) : SameOutcome R (.ok a s) (.ok a t)
  | error (e : ParseError) (s t : Session) : SameOutcome R (.error e s) (.error e t)

/-- A reading that does the same in related sessions.  It leaves them related in another way. -/
def Carries (R R' : Session → Session → Prop) (x : Reading α) : Prop :=
  ∀ s t, R s t → SameOutcome R' (x s) (x t)

/-- Related sessions with a word ahead. -/
def AtWord (R : Session → Session → Prop) (s t : Session) : Prop :=
  R s t ∧ s.next.isLineBreak = false

theorem carries_pure (a : α) : Carries R R (pure a) :=
  fun _ _ hs => .ok a hs

theorem carries_throw (e : ParseError) : Carries R R' (throw e : Reading α) :=
  fun s t _ => .error e s t

theorem carries_modify {g : Session → Session} (h : ∀ s t, R s t → R' (g s) (g t)) :
    Carries R R' (modify g : Reading Unit) :=
  fun s t hs => .ok () (h s t hs)

theorem Carries.of_imp (hx : Carries R' R'' x) (h : ∀ s t, R s t → R' s t) : Carries R R'' x :=
  fun s t hs => hx s t (h s t hs)

theorem SameOutcome.mono (h : SameOutcome R (x s) (x t)) (hmono : ∀ s t, R s t → R' s t) :
    SameOutcome R' (x s) (x t) := by
  generalize x s = one, x t = two at h ⊢
  cases h with
  | ok a hs => exact .ok a (hmono _ _ hs)
  | error e s' t' => exact .error e s' t'

theorem SameOutcome.bind {g : α → Reading β} (h : SameOutcome R (x s) (y t))
    (hnext : ∀ a s' t', R s' t' → SameOutcome R' (f a s') (g a t')) :
    SameOutcome R' ((x >>= f) s) ((y >>= g) t) := by
  rw [run_bind, run_bind]
  generalize x s = one, y t = two at h ⊢
  cases h with
  | ok a hs => exact hnext a _ _ hs
  | error e s' t' => exact .error e s' t'

theorem Carries.bind (hx : Carries R R' x) (hf : ∀ a, Carries R' R'' (f a)) :
    Carries R R'' (x >>= f) :=
  fun s t hs => (hx s t hs).bind fun a s' t' hs' => hf a s' t' hs'

theorem SameOutcome.map {g : α → β} (h : SameOutcome R (x s) (x t)) :
    SameOutcome R ((g <$> x) s) ((g <$> x) t) := by
  simp only [Functor.map, EStateM.map]
  generalize x s = one, x t = two at h ⊢
  cases h with
  | ok a hs => exact .ok _ hs
  | error e s' t' => exact .error e s' t'

theorem carries_ite {c : Prop} [Decidable c] (hx : Carries R R' x) (hy : Carries R R' y) :
    Carries R R' (if c then x else y) := by
  by_cases hc : c
  · rw [if_pos hc]
    exact hx
  · rw [if_neg hc]
    exact hy

theorem carries_require (holds : Bool) (error : ParseError) : Carries R R (require holds error) :=
  carries_ite (carries_pure _) (carries_throw _)

theorem SameOutcome.require_bind (holds : Bool) (error : ParseError)
    (h : SameOutcome R (x s) (y t)) :
    SameOutcome R ((require holds error >>= fun _ => x) s)
      ((require holds error >>= fun _ => y) t) := by
  cases holds with
  | false => exact .error error s t
  | true => exact h

theorem run_take_bind (f : Token → Reading α) (s : Session) :
    (take >>= f) s = f s.next s.advance := rfl

end Reading

/-! ### Alignments -/

/-- Both sessions read a statement, with the same outcome.  Behind it they are inside again. -/
structure Turns (within : Session → Session → Prop) (s t : Session) : Prop where
  left : s.StartsStatement
  right : t.StartsStatement
  reads (readBlock : BlockEnd → Reading (List Node)) :
    SameOutcome within (readStatement readBlock s) (readStatement readBlock t)

/-- How two programs may be read side by side.  The sessions are related by `within` inside of
    statements and behind them, and by `between` where statements may start.  Only there may they
    have different tokens ahead on the line, and then both of them read a statement. -/
structure Alignment (within between : Session → Session → Prop) : Prop where
  between_of_within {s t : Session} : within s t → between s t
  looksLike {s t : Session} : within s t → s.LooksLike t
  skip {s t : Session} {count : Nat} :
    within s t → count ≤ s.restOfLine.length → within (s.skip count) (t.skip count)
  skipLineBreaks {s t : Session} : within s t → between s.skipLineBreaks t.skipLineBreaks
  logged {s t : Session} (records records' : List Record) : within s t →
    within { s with log := s.log ++ records } { t with log := t.log ++ records' }
  noted {s t : Session} (diagnostic : Diagnostic) : within s t →
    within { s with diagnostics := s.diagnostics ++ [diagnostic] }
      { t with diagnostics := t.diagnostics ++ [diagnostic] }
  turn {s t : Session} : between s t → within s t ∨ Turns within s t

/-- Reads a block as `readBlockWithin` does, with one step for a whole row of line breaks.  It fails
    where the room is short, so it never reads a part of a block. -/
def readRowsWithin : Nat → BlockEnd → Reading (List Node)
  | 0, _ => throw (.pinned (.endOfFile 0) .prematureEnd)
  | room + 1, stop => do
    let session ← get
    match stop.step session.next.kind with
    | .finish =>
      if session.ahead.isEmpty then pure [] else throw (.pinned session.next .prematureEnd)
    | .close => pure []
    | .newLine =>
      modify Session.skipLineBreaks
      readRowsWithin room stop
    | .statement =>
      let statement ← readStatement (readRowsWithin room)
      let later ← readRowsWithin room stop
      pure (statement.toList ++ later)

namespace Alignment

variable {within between : Session → Session → Prop} (H : Alignment within between)

include H

/-! ### Words -/

theorem advance (hs : within s t) (hword : s.next.isLineBreak = false) :
    within s.advance t.advance := by
  have hnext := (H.looksLike hs).next
  unfold Session.advance
  rw [← hnext]
  by_cases hend : s.next.kind = .endOfFile
  · rw [if_pos hend, if_pos hend]
    exact hs
  · rw [if_neg hend, if_neg hend]
    exact H.skip hs (Session.length_restOfLine_pos hword hend)

theorem carries_peek : Carries within within peek := by
  intro s t hs
  show SameOutcome within (.ok s.next s) (.ok t.next t)
  rw [(H.looksLike hs).next]
  exact .ok _ hs

theorem carries_take : Carries (AtWord within) within take := by
  intro s t ⟨hs, hword⟩
  show SameOutcome within (.ok s.next s.advance) (.ok t.next t.advance)
  rw [(H.looksLike hs).next]
  exact .ok _ (H.advance hs hword)

/-- An operand is never a line break. -/
theorem carries_expect {allowed : Kind → Bool} (fault : Fault)
    (hallowed : allowed .lineBreak = false) : Carries within within (expect allowed fault) := by
  intro s t hs
  have hnext := (H.looksLike hs).next
  show SameOutcome within
    ((if allowed s.next.kind then take else throw (.pinned s.next fault) : Reading Token) s)
    ((if allowed t.next.kind then take else throw (.pinned t.next fault) : Reading Token) t)
  rw [← hnext]
  split
  · next hkind =>
    apply H.carries_take s t
    refine ⟨hs, ?_⟩
    rw [Token.isLineBreak, beq_eq_false_iff_ne]
    intro hbreak
    rw [hbreak, hallowed] at hkind
    cases hkind
  · exact .error _ s t

theorem carries_record (records : List Record) : Carries within within (record records) :=
  carries_modify fun _ _ hs => H.logged records records hs

theorem carries_trace (text : String) : Carries within within (trace text) := by
  intro s t hs
  rw [run_trace, run_trace]
  exact .ok () (H.logged _ _ hs)

theorem carries_note (diagnostic : Diagnostic) : Carries within within (note diagnostic) :=
  carries_modify fun _ _ hs => H.noted diagnostic hs

theorem carries_skipLineBreaks :
    Carries within between (modify Session.skipLineBreaks : Reading Unit) :=
  carries_modify fun _ _ hs => H.skipLineBreaks hs

/-- A span is read alike.  The tokens ahead are still the same, so what follows may count them. -/
theorem ofLogged_bind {α β : Type} {R : Session → Session → Prop} {f : α → Reading β}
    (action : Logged ParseError α) (hs : within s t)
    (hf : ∀ a, within { s with log := s.log ++ action.records }
        { t with log := t.log ++ action.records } →
      SameOutcome R (f a { s with log := s.log ++ action.records })
        (f a { t with log := t.log ++ action.records })) :
    SameOutcome R ((ofLogged action >>= f) s) ((ofLogged action >>= f) t) := by
  have hlogged := H.logged action.records action.records hs
  obtain ⟨records, result⟩ := action
  cases result with
  | error e => exact .error e _ _
  | ok a => exact hf a hlogged

/-- Some of the tokens on the line ahead are passed. -/
theorem skip_bind {β : Type} {R : Session → Session → Prop} {y : Reading β} (hs : within s t)
    (hcount : count ≤ s.restOfLine.length) (hy : Carries within R y) :
    SameOutcome R ((modify (·.skip count) >>= fun _ => y : Reading β) s)
      ((modify (·.skip count) >>= fun _ => y : Reading β) t) :=
  hy _ _ (H.skip hs hcount)

/-! ### Statements -/

theorem carries_expectAll {shape : List ((Kind → Bool) × Fault)}
    (hshape : ∀ entry ∈ shape, entry.1 .lineBreak = false) :
    Carries within within (expectAll shape) := by
  induction shape with
  | nil => exact carries_pure _
  | cons entry shape ih =>
    obtain ⟨hentry, hshape⟩ := List.forall_mem_cons.1 hshape
    exact (H.carries_expect _ hentry).bind fun _ => (ih hshape).bind fun _ => carries_pure _

/-- The statements with a fixed number of operands. -/
theorem carries_readFixed {shape : Token → List ((Kind → Bool) × Fault)}
    (hshape : ∀ keyword, ∀ entry ∈ shape keyword, entry.1 .lineBreak = false) :
    Carries (AtWord within) within (readFixed shape) :=
  H.carries_take.bind fun keyword => (H.carries_expectAll (hshape keyword)).bind fun _ =>
    carries_pure _

theorem carries_readVersion : Carries (AtWord within) within readVersion := by
  rw [readVersion_eq]
  exact H.carries_readFixed (by simp)

theorem carries_readImplicit : Carries (AtWord within) within readImplicit := by
  rw [readImplicit_eq]
  exact H.carries_readFixed (by simp [Kind.isDataType, Kind.isVariable])

theorem carries_readDisp : Carries (AtWord within) within readDisp := by
  rw [readDisp_eq]
  exact H.carries_readFixed (by simp [Kind.isVariable, Kind.isLiteral])

theorem carries_readDispStr : Carries (AtWord within) within readDispStr := by
  rw [readDispStr_eq]
  exact H.carries_readFixed (by simp [Kind.isVariable])

theorem carries_readTitle : Carries (AtWord within) within readTitle := by
  intro s t hs
  unfold readTitle
  rw [run_get_bind, run_get_bind, (H.looksLike hs.1).isEmpty_passed]
  refine (H.carries_take s t hs).bind fun keyword s' t' hs' => ?_
  exact ((carries_require _ _).bind fun _ => (H.carries_expect _ rfl).bind fun _ =>
    carries_pure _) s' t' hs'

theorem carries_readDeclaration : Carries (AtWord within) within readDeclaration := by
  intro s t hs
  have hlike := H.looksLike hs.1
  unfold readDeclaration
  rw [run_get_bind, run_get_bind, hlike.atLineStart, hlike.next]
  apply SameOutcome.require_bind
  exact (H.carries_take.bind fun _ => (H.carries_expect _ rfl).bind fun _ =>
    carries_pure _) s t hs

theorem carries_readJump : Carries (AtWord within) within readJump := by
  intro s t hs
  have hlike := H.looksLike hs.1
  unfold readJump
  rw [run_get_bind, run_get_bind, hlike.atLineStart, hlike.next]
  apply SameOutcome.require_bind
  exact (H.carries_take.bind fun _ => (H.carries_expect _ rfl).bind fun _ =>
    carries_pure _) s t hs

theorem sameOutcome_readStore {span : List Token} {arrow target : Token} (hs : within s t)
    (hparts : storeParts? s.restOfLine = some (span, arrow, target)) :
    SameOutcome within (readStore span arrow target s) (readStore span arrow target t) := by
  have hlength : span.length + 2 ≤ s.restOfLine.length := by
    rw [(storeParts?_eq_some_iff.1 hparts).parts, List.length_append]
    exact Nat.le_refl _
  unfold readStore
  rw [run_get_bind, run_get_bind, (H.looksLike hs).options]
  refine H.ofLogged_bind _ hs fun tree hs' => ?_
  exact H.skip_bind hs' hlength (carries_pure _)

theorem sameOutcome_readAssignment (hs : within s t) (hword : s.next.isLineBreak = false)
    (hinside : s.next.kind ≠ .endOfFile)
    (harrow : (s.ahead[1]?.map Token.kind) = some .assign) :
    SameOutcome within (readAssignment s) (readAssignment t) := by
  have hadvance : s.advance = s.skip 1 := if_neg hinside
  have hsecond : s.advance.next.isLineBreak = false := by
    obtain ⟨arrow, hahead, hkind⟩ := Option.map_eq_some_iff.1 harrow
    have hnext : s.advance.next = arrow := by
      rw [hadvance]
      show (s.ahead.drop 1).headD s.terminator = arrow
      rw [List.headD_eq_head?_getD, List.head?_drop, hahead]
      rfl
    rw [hnext]
    exact isLineBreak_of_endsLine (by rw [hkind]; rfl)
  unfold readAssignment
  rw [run_take_bind _ s, run_take_bind _ t, (H.looksLike hs).next]
  refine (H.carries_take _ _ ⟨H.advance hs hword, hsecond⟩).bind fun arrow s' t' hs' => ?_
  have hlike := H.looksLike hs'
  rw [run_get_bind, run_get_bind, ← hlike.restOfLine, hlike.options]
  apply SameOutcome.require_bind
  refine H.ofLogged_bind _ hs' fun tree hs'' => ?_
  exact H.skip_bind hs'' (Nat.le_refl _) (carries_pure _)

theorem carries_skipUnknown : Carries (AtWord within) within skipUnknown := by
  intro s t hs
  unfold skipUnknown
  refine (H.carries_take s t hs).bind fun token s' t' hs' => ?_
  rw [run_get_bind, run_get_bind, (H.looksLike hs').options]
  exact ((carries_require _ _).bind fun _ => (H.carries_record _).bind fun _ =>
    (H.carries_note _).bind fun _ => carries_pure _) s' t' hs'

/-- The statements that no keyword starts. -/
theorem sameOutcome_readOther (hs : AtWord within s t) (hinside : s.next.kind ≠ .endOfFile)
    (kind : Kind) :
    SameOutcome within
      ((if kind.isVariable ∧ (s.ahead[1]?.map Token.kind) = some .assign then
        some <$> readAssignment
      else
        match if s.atLineStart then storeParts? s.restOfLine else none with
        | some (span, arrow, target) => some <$> readStore span arrow target
        | none => skipUnknown : Reading (Option Node)) s)
      ((if kind.isVariable ∧ (t.ahead[1]?.map Token.kind) = some .assign then
        some <$> readAssignment
      else
        match if t.atLineStart then storeParts? t.restOfLine else none with
        | some (span, arrow, target) => some <$> readStore span arrow target
        | none => skipUnknown : Reading (Option Node)) t) := by
  have hlike := H.looksLike hs.1
  rw [← hlike.second (Session.length_restOfLine_pos hs.2 hinside), ← hlike.atLineStart,
    ← hlike.restOfLine]
  split
  · next hassignment =>
    exact (H.sameOutcome_readAssignment hs.1 hs.2 hinside hassignment.2).map
  · generalize hparts : (if s.atLineStart then storeParts? s.restOfLine else none) = parts
    cases parts with
    | none => exact H.carries_skipUnknown s t hs
    | some parts =>
      have hline := (Option.ite_none_right_eq_some.1 hparts).2
      exact (H.sameOutcome_readStore hs.1 hline).map

section Blocks

variable {readBlock : BlockEnd → Reading (List Node)}
  (hblock : ∀ stop, Carries between within (readBlock stop))

include hblock

omit H in
theorem carries_readBranch (opener : Token) (stop : BlockEnd) :
    Carries between within (readBranch readBlock opener stop) :=
  (hblock stop).bind fun _ => (carries_require _ _).bind fun _ => carries_pure _

/-- The body of a conditional in block form may start right behind its keyword. -/
theorem carries_readBranch_within (opener : Token) (stop : BlockEnd) :
    Carries within within (readBranch readBlock opener stop) :=
  (carries_readBranch hblock opener stop).of_imp fun _ _ => H.between_of_within

theorem carries_readAlternative : Carries within within (readAlternative readBlock) := by
  intro s t hs
  unfold readAlternative
  rw [run_get_bind, run_get_bind, ← (H.looksLike hs).next]
  split
  · next helse =>
    have hword : s.next.isLineBreak = false := isLineBreak_of_endsLine (by rw [helse]; rfl)
    exact (H.carries_take.bind fun elseWord =>
      (H.carries_readBranch_within hblock elseWord .keyword).bind fun _ =>
        H.carries_peek.bind fun _ => (carries_require _ _).bind fun _ =>
          carries_pure _) s t ⟨hs, hword⟩
  · exact .ok [] hs

theorem carries_readBranches (keyword : Token) :
    Carries within within (readBranches readBlock keyword) := by
  unfold readBranches
  refine (H.carries_readBranch_within hblock keyword .keyword).bind fun body => ?_
  refine (H.carries_readAlternative hblock).bind fun alternative => ?_
  intro s t hs
  show SameOutcome within
    ((require (s.next.kind == .keyword .endWord) (.pinned keyword .missingEnd) >>= _) s)
    ((require (t.next.kind == .keyword .endWord) (.pinned keyword .missingEnd) >>= _) t)
  rw [← (H.looksLike hs).next]
  cases hend : s.next.kind == .keyword .endWord with
  | false => exact .error _ s t
  | true =>
    have hword : s.next.isLineBreak = false := isLineBreak_of_endsLine (by rw [eq_of_beq hend]; rfl)
    exact (H.carries_take.bind fun _ => carries_pure _) s t ⟨hs, hword⟩

theorem carries_readConditional : Carries (AtWord within) within (readConditional readBlock) := by
  unfold readConditional
  refine H.carries_take.bind fun keyword => ?_
  intro s t hs
  have hlike := H.looksLike hs
  rw [run_get_bind, run_get_bind, ← hlike.restOfLine, hlike.options]
  apply SameOutcome.require_bind
  refine H.ofLogged_bind _ hs fun condition hs' => ?_
  split
  · next hthen =>
    refine H.skip_bind hs' hthen ?_
    exact (H.carries_readBranches hblock keyword).bind fun _ => carries_pure _
  · refine H.skip_bind hs' (Nat.le_refl _) ?_
    -- The body in line form starts where the line breaks end.
    exact H.carries_skipLineBreaks.bind fun _ =>
      (carries_readBranch hblock keyword .line).bind fun _ => carries_pure _

theorem sameOutcome_readStatement (hs : AtWord within s t) (hinside : s.next.kind ≠ .endOfFile) :
    SameOutcome within (readStatement readBlock s) (readStatement readBlock t) := by
  obtain ⟨hsessions, hword⟩ := hs
  unfold readStatement
  rw [run_get_bind, run_get_bind, run_bind, run_bind, run_trace, run_trace,
    ← (H.looksLike hsessions).next]
  dsimp only
  -- The statement is traced in both sessions; what is ahead is as before.
  have hs' : AtWord within _ _ :=
    ⟨H.logged (if s.options.debug then [⟨.debug, "statement " ++ s.next.display ++
      " on line " ++ toString s.next.line⟩] else []) (if t.options.debug then [⟨.debug,
      "statement " ++ s.next.display ++ " on line " ++ toString s.next.line⟩] else [])
      hsessions, hword⟩
  have hother := H.sameOutcome_readOther hs' hinside
  generalize s.next.kind = kind
  cases kind with
  | keyword keyword =>
    cases keyword with
    | program => exact (H.carries_readTitle _ _ hs').map
    | version => exact (H.carries_readVersion _ _ hs').map
    | implicit => exact (H.carries_readImplicit _ _ hs').map
    | ifWord => exact (H.carries_readConditional hblock _ _ hs').map
    | label | goto => exact (H.carries_readJump _ _ hs').map
    | disp => exact (H.carries_readDisp _ _ hs').map
    | dispStr => exact (H.carries_readDispStr _ _ hs').map
    | call => exact .error _ _ _
    | thenWord | elseWord | endWord => exact hother (.keyword _)
  | dataType type => exact (H.carries_readDeclaration _ _ hs').map
  | _ => exact hother _

end Blocks

end Alignment

/-! ### Blocks -/

variable {stop : BlockEnd} {room : Nat}

theorem skipLineBreaks_cons {first : Token} {rest : List Token} (hahead : s.ahead = first :: rest)
    (hbreak : first.isLineBreak = true) : (s.skip 1).skipLineBreaks = s.skipLineBreaks := by
  unfold Session.skipLineBreaks Session.skip
  simp [hahead, hbreak]

/-- The line breaks ahead of a block may be passed first, unless the block ends before them. -/
theorem readBlock_skipLineBreaks (hstop : stop ≠ .line) (s : Session) :
    readBlock stop s = readBlock stop s.skipLineBreaks := by
  generalize hahead : s.ahead = ahead
  induction ahead generalizing s with
  | nil =>
    have hword : s.next.isLineBreak = false := by
      rw [Session.next_of_nil hahead]
      rfl
    rw [Session.skipLineBreaks_eq_self hword]
    rfl
  | cons first rest ih =>
    have hnext : s.next = first := Session.next_eq hahead
    cases hbreak : first.isLineBreak with
    | false =>
      rw [Session.skipLineBreaks_eq_self (hnext ▸ hbreak)]
      rfl
    | true =>
      -- One step of the block passes the first line break, and the others are ahead of the rest.
      have hkind : s.next.kind = .lineBreak := by
        rw [hnext]
        exact eq_of_beq hbreak
      have hadvance : s.advance = s.skip 1 := if_neg (by rw [hkind]; nofun)
      have hstep : stop.step .lineBreak = .newLine := if_neg hstop
      rw [← skipLineBreaks_cons hahead hbreak, ← ih (s.skip 1) (by simp [Session.skip, hahead]),
        readBlock_eq, hkind, hstep, hadvance]

theorem length_skipLineBreaks_lt (h : s.next.kind = .lineBreak) :
    s.skipLineBreaks.ahead.length < s.ahead.length := by
  cases hahead : s.ahead with
  | nil =>
    rw [Session.next_of_nil hahead] at h
    cases h
  | cons first rest =>
    have hbreak : first.isLineBreak = true := by
      rw [← Session.next_eq hahead, Token.isLineBreak, h]
      rfl
    rw [← skipLineBreaks_cons hahead hbreak]
    have hle : (s.skip 1).skipLineBreaks.ahead.length ≤ (s.skip 1).ahead.length :=
      forward_skipLineBreaks (s.skip 1) () _ rfl
    rw [Session.length_ahead_skip, hahead, List.length_cons] at hle
    rw [List.length_cons]
    omega

theorem forward_readBlock (stop : BlockEnd) : Forward (readBlock stop) :=
  forward_bind forward_get fun _ => forward_readBlockWithin _ stop

/-- If there is room for every token, a block is read as it is. -/
theorem readRowsWithin_eq (h : s.ahead.length < room) :
    readRowsWithin room stop s = readBlock stop s := by
  induction room generalizing stop s with
  | zero => omega
  | succ room ih =>
    have hblock := readBlock_eq stop s
    rw [readRowsWithin, run_get_bind]
    cases hstep : stop.step s.next.kind with
    | finish => rw [hblock, hstep]
    | close =>
      rw [hblock, hstep]
      rfl
    | newLine =>
      obtain ⟨hline, hbreak⟩ := BlockEnd.newLine_of_step hstep
      have hshorter := length_skipLineBreaks_lt hbreak
      rw [readBlock_skipLineBreaks hline]
      exact ih (by omega)
    | statement =>
      -- What is read inside the statement and behind it is shorter.
      have hinside := BlockEnd.kind_ne_of_step hstep nofun
      have hpositive := List.length_pos_iff.2 (Session.ahead_ne_nil hinside)
      have hagree : Agree readBlock (readRowsWithin room) (s.ahead.length - 1) := by
        intro stop t ht
        exact (ih (by omega)).symm
      rw [hblock, hstep]
      show (readStatement (readRowsWithin room) >>= _) s = (readStatement readBlock >>= _) s
      rw [run_bind, run_bind, readStatement_congr hagree forward_readBlock hinside (by omega)]
      cases hr : readStatement (readRowsWithin room) s with
      | error e after => rfl
      | ok statement after =>
        rw [← readStatement_congr hagree forward_readBlock hinside (by omega)] at hr
        have hshorter := passing_readStatement forward_readBlock s statement after hinside hr
        simp only [run_bind, ih (show after.ahead.length < room by omega)]

namespace Alignment

variable {within between : Session → Session → Prop} (H : Alignment within between)

include H

/-- A row of line breaks is one step, however many there are.  The induction is on the room, since
    the bodies of conditionals are read with less of it. -/
theorem carries_readRowsWithin (room : Nat) (stop : BlockEnd) :
    Carries between within (readRowsWithin room stop) := by
  induction room generalizing stop with
  | zero => exact carries_throw _
  | succ room ih =>
    have hlater (statement : Option Node) : Carries within within (do
        let later ← readRowsWithin room stop
        pure (statement.toList ++ later)) :=
      ((ih stop).of_imp fun _ _ => H.between_of_within).bind fun _ => carries_pure _
    intro s t hs
    rw [readRowsWithin, run_get_bind, run_get_bind]
    rcases H.turn hs with hs | hturns
    · have hlike := H.looksLike hs
      rw [← hlike.next, ← hlike.isEmpty_ahead]
      cases hstep : stop.step s.next.kind with
      | finish => exact carries_ite (carries_pure _) (carries_throw _) s t hs
      | close => exact .ok [] hs
      | newLine => exact (H.carries_skipLineBreaks.bind fun _ => ih stop) s t hs
      | statement =>
        have hword := isLineBreak_of_endsLine (BlockEnd.endsLine_of_step hstep)
        have hinside := BlockEnd.kind_ne_of_step hstep nofun
        exact (H.sameOutcome_readStatement ih ⟨hs, hword⟩ hinside).bind hlater
    · -- Here the next tokens may differ, but not what the block does at them.
      rw [hturns.left stop, hturns.right stop]
      exact (hturns.reads (readRowsWithin room)).bind hlater

theorem carries_readBlock (stop : BlockEnd) : Carries between within (readBlock stop) := by
  intro s t hs
  have hroom : s.ahead.length < s.ahead.length + t.ahead.length + 1 := by omega
  have hroom' : t.ahead.length < s.ahead.length + t.ahead.length + 1 := by omega
  rw [← readRowsWithin_eq hroom, ← readRowsWithin_eq hroom']
  exact H.carries_readRowsWithin _ stop s t hs

/-! ### Programs -/

/-- Two programs that are aligned are compiled alike, if they start with a title alike. -/
theorem compile_eq (hs : between s t)
    (htitle : (!s.options.requireTitle || s.startsWithTitle) =
      (!t.options.requireTitle || t.startsWithTitle))
    (hfirst : s.options.requireTitle = true →
      s.tokens.headD s.terminator = t.tokens.headD t.terminator) :
    s.compile.result = t.compile.result := by
  have hsame : SameOutcome within (readProgram s) (readProgram t) := by
    unfold readProgram
    rw [run_get_bind, run_get_bind, ← htitle]
    cases hholds : !s.options.requireTitle || s.startsWithTitle with
    | false =>
      have hask : s.options.requireTitle = true := by
        cases hrequire : s.options.requireTitle with
        | true => rfl
        | false => rw [hrequire] at hholds; cases hholds
      rw [hfirst hask]
      exact .error _ s t
    | true =>
      refine ((H.carries_readBlock .program).bind fun statements => ?_) s t hs
      exact (H.carries_trace _).bind fun _ => carries_pure _
  unfold Session.compile
  generalize readProgram s = one, readProgram t = two at hsame ⊢
  cases hsame with
  | ok root hlast =>
    show Except.ok (Compilation.mk root _) = Except.ok (Compilation.mk root _)
    rw [(H.looksLike hlast).diagnostics]
  | error e s' t' => rfl

end Alignment

end CalcLang
