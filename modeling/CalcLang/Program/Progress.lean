import CalcLang.Program.Block

/-!
# Progress

Reading only ever moves forward, and a statement passes at least one token.  So the bound on the steps
of a block is never reached, and a block is read as its grammar says.

* `Reading.Forward`: a reading that passes tokens or stays where it is.
* `Reading.Passing`: a reading that passes at least one token, unless the program ends.
* `passing_readStatement`: a statement is such a reading.
* `readBlock_eq`: what a block does at its next token.
-/

namespace CalcLang

namespace Session

/-! ### Moves -/

@[simp] theorem length_ahead_skip (count : Nat) (s : Session) :
    (s.skip count).ahead.length = s.ahead.length - count := by
  simp [skip]

@[simp] theorem next_of_nil {s : Session} (h : s.ahead = []) : s.next = s.terminator := by
  simp [next, h]

theorem ahead_ne_nil {s : Session} (h : s.next.kind ≠ .endOfFile) : s.ahead ≠ [] := by
  intro empty
  exact h (by rw [next_of_nil empty]; rfl)

theorem length_ahead_advance_le (s : Session) : s.advance.ahead.length ≤ s.ahead.length := by
  unfold advance
  split
  · exact Nat.le_refl _
  · simp

theorem length_ahead_advance_lt {s : Session} (h : s.next.kind ≠ .endOfFile) :
    s.advance.ahead.length < s.ahead.length := by
  have positive := List.length_pos_iff.2 (ahead_ne_nil h)
  simp only [advance, if_neg h, length_ahead_skip]
  omega

end Session

namespace Reading

variable {α β : Type}

/-! ### Running -/

theorem run_bind (x : Reading α) (f : α → Reading β) (s : Session) :
    (x >>= f) s = match x s with
      | .ok a s' => f a s'
      | .error e s' => .error e s' := by
  simp only [bind, EStateM.bind]
  cases x s <;> rfl

theorem run_get_bind (f : Session → Reading α) (s : Session) : (get >>= f) s = f s s := rfl

/-- Only what follows a success matters. -/
theorem bind_congr_ok {x : Reading α} {f g : α → Reading β} {s : Session}
    (h : ∀ a s', x s = .ok a s' → f a s' = g a s') : (x >>= f) s = (x >>= g) s := by
  rw [run_bind, run_bind]
  cases hx : x s with
  | ok a s' => exact h a s' hx
  | error e s' => rfl

/-! ### Moving forward -/

/-- A reading that passes tokens or stays where it is. -/
def Forward (x : Reading α) : Prop :=
  ∀ s a s', x s = .ok a s' → s'.ahead.length ≤ s.ahead.length

/-- A reading that passes at least one token, unless the program ends. -/
def Passing (x : Reading α) : Prop :=
  ∀ s a s', s.next.kind ≠ .endOfFile → x s = .ok a s' → s'.ahead.length < s.ahead.length

theorem forward_pure (a : α) : Forward (pure a : Reading α) := by
  rintro s _ s' ⟨⟩
  exact Nat.le_refl _

theorem forward_throw (e : ParseError) : Forward (throw e : Reading α) := by
  rintro s a s' ⟨⟩

theorem passing_throw (e : ParseError) : Passing (throw e : Reading α) := by
  rintro s a s' _ ⟨⟩

theorem forward_bind {x : Reading α} {f : α → Reading β} (hx : Forward x)
    (hf : ∀ a, Forward (f a)) : Forward (x >>= f) := by
  intro s b s'' h
  rw [run_bind] at h
  cases hs : x s with
  | error e s' => rw [hs] at h; cases h
  | ok a s' =>
    rw [hs] at h
    exact Nat.le_trans (hf a s' b s'' h) (hx s a s' hs)

theorem passing_bind {x : Reading α} {f : α → Reading β} (hx : Passing x)
    (hf : ∀ a, Forward (f a)) : Passing (x >>= f) := by
  intro s b s'' hs h
  rw [run_bind] at h
  cases hr : x s with
  | error e s' => rw [hr] at h; cases h
  | ok a s' =>
    rw [hr] at h
    exact Nat.lt_of_le_of_lt (hf a s' b s'' h) (hx s a s' hs hr)

/-- A reading that looks at the session first. -/
theorem passing_get_bind {f : Session → Reading α} (h : ∀ s, Passing (f s)) :
    Passing (get >>= f) := fun s a s' hs hr => h s s a s' hs hr

theorem forward_get : Forward (get : Reading Session) := by
  rintro s _ s' ⟨⟩
  exact Nat.le_refl _

theorem forward_modify {f : Session → Session}
    (h : ∀ s, (f s).ahead.length ≤ s.ahead.length) : Forward (modify f : Reading Unit) := by
  rintro s _ s' ⟨⟩
  exact h s

theorem forward_skip (count : Nat) : Forward (modify (·.skip count) : Reading Unit) :=
  forward_modify fun s => by simp

theorem forward_skipLineBreaks : Forward (modify Session.skipLineBreaks : Reading Unit) :=
  forward_modify fun s => by simp [Session.skipLineBreaks]

theorem forward_peek : Forward peek := forward_bind forward_get fun _ => forward_pure _

theorem forward_take : Forward take := by
  rintro s _ s' ⟨⟩
  exact s.length_ahead_advance_le

theorem passing_take : Passing take := by
  rintro s _ s' hs ⟨⟩
  exact Session.length_ahead_advance_lt hs

theorem forward_ite {c : Prop} [Decidable c] {x y : Reading α} (hx : Forward x)
    (hy : Forward y) : Forward (if c then x else y) := by
  split
  · exact hx
  · exact hy

theorem passing_ite {c : Prop} [Decidable c] {x y : Reading α} (hx : Passing x)
    (hy : Passing y) : Passing (if c then x else y) := by
  split
  · exact hx
  · exact hy

theorem forward_expect (allowed : Kind → Bool) (fault : Fault) :
    Forward (expect allowed fault) :=
  forward_bind forward_peek fun _ => forward_ite forward_take (forward_throw _)

theorem forward_require (holds : Bool) (error : ParseError) : Forward (require holds error) :=
  forward_ite (forward_pure _) (forward_throw _)

theorem forward_record (records : List Record) : Forward (record records) :=
  forward_modify fun _ => Nat.le_refl _

theorem forward_note (diagnostic : Diagnostic) : Forward (note diagnostic) :=
  forward_modify fun _ => Nat.le_refl _

theorem forward_ofLogged (action : Logged ParseError α) : Forward (ofLogged action) := by
  refine forward_bind (forward_record _) fun _ => ?_
  cases action.result with
  | ok a => exact forward_pure a
  | error e => exact forward_throw e

/-- A trace leaves all but the log alone. -/
theorem run_trace (text : String) (s : Session) :
    trace text s = .ok ()
      { s with log := s.log ++ if s.options.debug then [⟨.debug, text⟩] else [] } := by
  have hstep : trace text s =
      (if s.options.debug then record [⟨.debug, text⟩] else pure () : Reading Unit) s := rfl
  rw [hstep]
  split
  · rfl
  · rw [List.append_nil]
    rfl

theorem passing_trace_bind (text : String) {x : Reading α} (h : Passing x) :
    Passing (trace text >>= fun _ => x) := by
  intro s a s' hs hr
  rw [run_bind, run_trace] at hr
  have shown := h { s with
    log := s.log ++ if s.options.debug then [⟨.debug, text⟩] else [] } a s'
  exact shown hs hr

/-- A demand leaves the tokens alone. -/
theorem passing_require_bind (holds : Bool) (error : ParseError) {x : Reading α} (h : Passing x) :
    Passing (require holds error >>= fun _ => x) := by
  cases holds
  · rintro s a s' _ ⟨⟩
  · exact fun s a s' hs hr => h s a s' hs hr

theorem map_congr {x y : Reading α} (f : α → β) {s : Session} (h : x s = y s) :
    (f <$> x) s = (f <$> y) s := by
  simp only [Functor.map, EStateM.map, h]

theorem passing_map {x : Reading α} (f : α → β) (hx : Passing x) : Passing (f <$> x) := by
  intro s b s' hs h
  cases hr : x s with
  | error e after =>
    have failed : (f <$> x) s = .error e after := by
      simp [Functor.map, EStateM.map, hr]
    rw [failed] at h
    cases h
  | ok a after =>
    have done : (f <$> x) s = .ok (f a) after := by
      simp [Functor.map, EStateM.map, hr]
    rw [done] at h
    cases h
    exact hx s a _ hs hr

end Reading

open Reading

/-! ### Statements -/

theorem passing_readTitle : Passing readTitle :=
  passing_get_bind fun _ => passing_bind passing_take fun _ =>
    forward_bind (forward_require _ _) fun _ => forward_bind (forward_expect _ _) fun _ =>
      forward_pure _

theorem passing_readVersion : Passing readVersion :=
  passing_bind passing_take fun _ => forward_bind (forward_expect _ _) fun _ =>
    forward_bind (forward_expect _ _) fun _ => forward_bind (forward_expect _ _) fun _ =>
      forward_pure _

theorem passing_readDeclaration : Passing readDeclaration :=
  passing_get_bind fun _ => passing_require_bind _ _ <| passing_bind passing_take fun _ =>
    forward_bind (forward_expect _ _) fun _ => forward_pure _

theorem passing_readImplicit : Passing readImplicit :=
  passing_bind passing_take fun _ => forward_bind (forward_expect _ _) fun _ =>
    forward_bind (forward_expect _ _) fun _ => forward_pure _

theorem passing_readAssignment : Passing readAssignment :=
  passing_bind passing_take fun _ => forward_bind forward_take fun _ =>
    forward_bind forward_get fun _ => forward_bind (forward_require _ _) fun _ =>
      forward_bind (forward_ofLogged _) fun _ => forward_bind (forward_skip _) fun _ =>
        forward_pure _

theorem passing_readStore (span : List Token) (arrow target : Token) :
    Passing (readStore span arrow target) := by
  refine passing_get_bind fun session => ?_
  intro s a s' hs h
  rw [run_bind] at h
  cases hr : ofLogged (readExpression session.options span) s with
  | error e after => rw [hr] at h; cases h
  | ok tree after =>
    rw [hr] at h
    cases h
    have positive := List.length_pos_iff.2 (Session.ahead_ne_nil hs)
    have step := forward_ofLogged _ s tree after hr
    simp only [Session.length_ahead_skip]
    omega

theorem passing_readJump : Passing readJump :=
  passing_get_bind fun _ => passing_require_bind _ _ <| passing_bind passing_take fun _ =>
    forward_bind (forward_expect _ _) fun _ => forward_pure _

theorem passing_readDisp : Passing readDisp :=
  passing_bind passing_take fun _ => forward_bind (forward_expect _ _) fun _ => forward_pure _

theorem passing_readDispStr : Passing readDispStr :=
  passing_bind passing_take fun _ => forward_bind (forward_expect _ _) fun _ => forward_pure _

theorem passing_skipUnknown : Passing skipUnknown :=
  passing_bind passing_take fun _ => forward_bind forward_get fun _ =>
    forward_bind (forward_require _ _) fun _ => forward_bind (forward_record _) fun _ =>
      forward_bind (forward_note _) fun _ => forward_pure _

section Blocks

variable {readBlock : BlockEnd → Reading (List Node)}

theorem forward_readBranch (h : ∀ stop, Forward (readBlock stop)) (opener : Token)
    (stop : BlockEnd) : Forward (readBranch readBlock opener stop) :=
  forward_bind (h stop) fun _ => forward_bind (forward_require _ _) fun _ => forward_pure _

theorem forward_readAlternative (h : ∀ stop, Forward (readBlock stop)) :
    Forward (readAlternative readBlock) :=
  forward_bind forward_get fun _ => forward_ite
    (forward_bind forward_take fun _ => forward_bind (forward_readBranch h _ _) fun _ =>
      forward_bind forward_peek fun _ => forward_bind (forward_require _ _) fun _ =>
        forward_pure _)
    (forward_pure _)

theorem forward_readBranches (h : ∀ stop, Forward (readBlock stop)) (keyword : Token) :
    Forward (readBranches readBlock keyword) :=
  forward_bind (forward_readBranch h _ _) fun _ =>
    forward_bind (forward_readAlternative h) fun _ => forward_bind forward_peek fun _ =>
      forward_bind (forward_require _ _) fun _ => forward_bind forward_take fun _ =>
        forward_pure _

theorem passing_readConditional (h : ∀ stop, Forward (readBlock stop)) :
    Passing (readConditional readBlock) :=
  passing_bind passing_take fun _ => forward_bind forward_get fun _ =>
    forward_bind (forward_require _ _) fun _ => forward_bind (forward_ofLogged _) fun _ =>
      forward_ite
        (forward_bind (forward_skip _) fun _ =>
          forward_bind (forward_readBranches h _) fun _ => forward_pure _)
        (forward_bind (forward_skip _) fun _ => forward_bind forward_skipLineBreaks fun _ =>
          forward_bind (forward_readBranch h _ _) fun _ => forward_pure _)

/-- A statement passes at least one token. -/
theorem passing_readStatement (h : ∀ stop, Forward (readBlock stop)) :
    Passing (readStatement readBlock) := by
  refine passing_get_bind fun session => passing_trace_bind _ ?_
  split
  · exact passing_map _ passing_readTitle
  · exact passing_map _ passing_readVersion
  · exact passing_map _ passing_readDeclaration
  · exact passing_map _ passing_readImplicit
  · exact passing_map _ (passing_readConditional h)
  · exact passing_map _ passing_readJump
  · exact passing_map _ passing_readJump
  · exact passing_map _ passing_readDisp
  · exact passing_map _ passing_readDispStr
  · exact passing_throw _
  · refine passing_ite (passing_map _ passing_readAssignment) ?_
    split
    · exact passing_map _ (passing_readStore _ _ _)
    · exact passing_skipUnknown

end Blocks

/-! ### Blocks -/

/-- A block that goes on, or is closed by its own end, is not at the end of the program. -/
theorem BlockEnd.kind_ne_of_step {stop : BlockEnd} {kind : Kind} {step : BlockStep}
    (h : stop.step kind = step) (hne : step ≠ .finish) : kind ≠ .endOfFile := by
  rintro rfl
  exact hne h.symm

/-- One step of a block. -/
theorem readBlockWithin_succ (room : Nat) (stop : BlockEnd) (s : Session) :
    readBlockWithin (room + 1) stop s =
      match stop.step s.next.kind with
      | .finish =>
        (if s.ahead.isEmpty then pure [] else throw (.pinned s.next .prematureEnd) :
          Reading (List Node)) s
      | .close => .ok [] s
      | .newLine => readBlockWithin room stop s.advance
      | .statement =>
        (readStatement (readBlockWithin room) >>= fun statement =>
          readBlockWithin room stop >>= fun later => pure (statement.toList ++ later)) s := by
  rw [readBlockWithin, run_get_bind]
  cases stop.step s.next.kind <;> rfl

/-- A block passes tokens or stays where it is. -/
theorem forward_readBlockWithin (room : Nat) (stop : BlockEnd) :
    Forward (readBlockWithin room stop) := by
  induction room generalizing stop with
  | zero => exact forward_pure _
  | succ room ih =>
    intro s a s' h
    rw [readBlockWithin_succ] at h
    split at h
    · exact forward_ite (forward_pure _) (forward_throw _) s a s' h
    · cases h
      exact Nat.le_refl _
    · exact Nat.le_trans (ih stop _ a s' h) s.length_ahead_advance_le
    · next hstep =>
      have inside := BlockEnd.kind_ne_of_step hstep nofun
      exact Nat.le_of_lt (passing_bind (passing_readStatement ih)
        (fun _ => forward_bind (ih stop) fun _ => forward_pure _) s a s' inside h)

/-! ### The bound on steps

Two readers of blocks that agree on every shorter session make statements agree. -/

section Agreement

variable {one two : BlockEnd → Reading (List Node)} {bound : Nat}

/-- Two readers of blocks agree on every session with at most a given number of tokens ahead. -/
def Agree (one two : BlockEnd → Reading (List Node)) (bound : Nat) : Prop :=
  ∀ stop s, s.ahead.length ≤ bound → one stop s = two stop s

theorem readBranch_congr (h : Agree one two bound) (opener : Token) (stop : BlockEnd)
    {s : Session} (hs : s.ahead.length ≤ bound) :
    readBranch one opener stop s = readBranch two opener stop s := by
  unfold readBranch
  rw [run_bind, run_bind, h stop s hs]

theorem readAlternative_congr (h : Agree one two bound) {s : Session}
    (hs : s.ahead.length ≤ bound) : readAlternative one s = readAlternative two s := by
  unfold readAlternative
  rw [run_get_bind, run_get_bind]
  split
  · refine bind_congr_ok fun elseWord after ht => ?_
    rw [run_bind, run_bind,
      readBranch_congr h _ _ (Nat.le_trans (forward_take s elseWord after ht) hs)]
  · rfl

theorem readBranches_congr (h : Agree one two bound) (hone : ∀ stop, Forward (one stop))
    (keyword : Token) {s : Session} (hs : s.ahead.length ≤ bound) :
    readBranches one keyword s = readBranches two keyword s := by
  unfold readBranches
  rw [run_bind, run_bind, ← readBranch_congr h keyword .keyword hs]
  cases hb : readBranch one keyword .keyword s with
  | error e after => rfl
  | ok body after =>
    have shorter := Nat.le_trans (forward_readBranch hone keyword .keyword s body after hb) hs
    simp only
    rw [run_bind, run_bind, readAlternative_congr h shorter]

theorem readConditional_congr (h : Agree one two bound) (hone : ∀ stop, Forward (one stop))
    {s : Session} (inside : s.next.kind ≠ .endOfFile) (hs : s.ahead.length ≤ bound + 1) :
    readConditional one s = readConditional two s := by
  unfold readConditional
  refine bind_congr_ok fun keyword s₁ h₁ => ?_
  have le₁ := Nat.le_of_lt_succ (Nat.lt_of_lt_of_le (passing_take s keyword s₁ inside h₁) hs)
  rw [run_get_bind, run_get_bind]
  refine bind_congr_ok fun _ s₂ h₂ => ?_
  have le₂ := Nat.le_trans (forward_require _ _ s₁ _ s₂ h₂) le₁
  refine bind_congr_ok fun condition s₃ h₃ => ?_
  have le₃ := Nat.le_trans (forward_ofLogged _ s₂ condition s₃ h₃) le₂
  split
  · refine bind_congr_ok fun _ s₄ h₄ => ?_
    have le₄ := Nat.le_trans (forward_skip _ s₃ _ s₄ h₄) le₃
    rw [run_bind, run_bind, readBranches_congr h hone keyword le₄]
  · refine bind_congr_ok fun _ s₄ h₄ => ?_
    have le₄ := Nat.le_trans (forward_skip _ s₃ _ s₄ h₄) le₃
    refine bind_congr_ok fun _ s₅ h₅ => ?_
    have le₅ := Nat.le_trans (forward_skipLineBreaks s₄ _ s₅ h₅) le₄
    rw [run_bind, run_bind, readBranch_congr h keyword .line le₅]

/-- The reader of blocks is called only behind the first token of a statement. -/
theorem readStatement_congr (h : Agree one two bound) (hone : ∀ stop, Forward (one stop))
    {s : Session} (inside : s.next.kind ≠ .endOfFile) (hs : s.ahead.length ≤ bound + 1) :
    readStatement one s = readStatement two s := by
  unfold readStatement
  rw [run_get_bind, run_get_bind]
  refine bind_congr_ok fun _ s₁ h₁ => ?_
  have ahead₁ : s₁.ahead = s.ahead ∧ s₁.next = s.next := by
    rw [run_trace] at h₁
    cases h₁
    exact ⟨rfl, rfl⟩
  have conditional := map_congr some
    (readConditional_congr h hone (ahead₁.2 ▸ inside) (ahead₁.1 ▸ hs))
  generalize s.next.kind = kind
  cases kind with
  | keyword keyword =>
    cases keyword with
    | ifWord => exact conditional
    | _ => rfl
  | _ => rfl

end Agreement

/-- Any bound that exceeds the number of tokens ahead will do. -/
theorem readBlockWithin_congr {room room' : Nat} (stop : BlockEnd) {s : Session}
    (h : s.ahead.length < room) (h' : s.ahead.length < room') :
    readBlockWithin room stop s = readBlockWithin room' stop s := by
  induction room generalizing room' stop s with
  | zero => omega
  | succ room ih =>
    obtain _ | room' := room'
    · omega
    rw [readBlockWithin_succ, readBlockWithin_succ]
    split
    · rfl
    · rfl
    · next hstep =>
      have inside := BlockEnd.kind_ne_of_step hstep nofun
      have shorter := Session.length_ahead_advance_lt inside
      exact ih stop (by omega) (by omega)
    · next hstep =>
      have inside := BlockEnd.kind_ne_of_step hstep nofun
      have positive := List.length_pos_iff.2 (Session.ahead_ne_nil inside)
      have agree : Agree (readBlockWithin room) (readBlockWithin room') (s.ahead.length - 1) :=
        fun stop t ht => ih stop (by omega) (by omega)
      have forward := forward_readBlockWithin room
      rw [run_bind, run_bind, ← readStatement_congr agree forward inside (by omega)]
      cases hr : readStatement (readBlockWithin room) s with
      | error e after => rfl
      | ok statement after =>
        have shorter := passing_readStatement forward s statement after inside hr
        have same : readBlockWithin room stop after = readBlockWithin room' stop after :=
          ih stop (by omega) (by omega)
        simp only [run_bind, same]

/-- What a block does at its next token. -/
theorem readBlock_eq (stop : BlockEnd) (s : Session) :
    readBlock stop s =
      match stop.step s.next.kind with
      | .finish =>
        (if s.ahead.isEmpty then pure [] else throw (.pinned s.next .prematureEnd) :
          Reading (List Node)) s
      | .close => .ok [] s
      | .newLine => readBlock stop s.advance
      | .statement =>
        (readStatement readBlock >>= fun statement =>
          readBlock stop >>= fun later => pure (statement.toList ++ later)) s := by
  have unbounded (room : Nat) (stop : BlockEnd) (t : Session) (h : t.ahead.length < room) :
      readBlock stop t = readBlockWithin room stop t := by
    unfold readBlock
    rw [run_get_bind]
    exact readBlockWithin_congr stop (Nat.lt_succ_self _) h
  rw [unbounded (s.ahead.length + 1) stop s (Nat.lt_succ_self _), readBlockWithin_succ]
  split
  · rfl
  · rfl
  · next hstep =>
    have inside := BlockEnd.kind_ne_of_step hstep nofun
    exact (unbounded _ stop _ (Session.length_ahead_advance_lt inside)).symm
  · next hstep =>
    have inside := BlockEnd.kind_ne_of_step hstep nofun
    have positive := List.length_pos_iff.2 (Session.ahead_ne_nil inside)
    have forward := forward_readBlockWithin s.ahead.length
    have agree : Agree (readBlockWithin s.ahead.length) readBlock (s.ahead.length - 1) :=
      fun stop t ht => (unbounded _ stop t (by omega)).symm
    rw [run_bind, run_bind, ← readStatement_congr agree forward inside (by omega)]
    cases hr : readStatement (readBlockWithin s.ahead.length) s with
    | error e after => rfl
    | ok statement after =>
      have shorter := passing_readStatement forward s statement after inside hr
      simp only [run_bind, unbounded s.ahead.length stop after shorter]

end CalcLang
