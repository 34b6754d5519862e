import CalcLang.Program.Progress

/-! # Moves of a session

    What a reading that succeeds does to its session:

    * `Reading.bind_eq_ok` and its companions: when a composed reading succeeds, and with what.
    * `Session.Moves`: a session passes some tokens, and notes that it has skipped some of them. -/

namespace CalcLang

namespace Session

variable {s : Session} {tokens more after : List Token} {records records' : List Record}

/-! ### Behind some tokens -/

/-- The session behind the next tokens, with more records in its log. -/
def past (s : Session) (tokens : List Token) (records : List Record) : Session :=
  { s with
    passed := tokens.reverse ++ s.passed
    ahead := s.ahead.drop tokens.length
    log := s.log ++ records }

@[simp] theorem past_nil (s : Session) : s.past [] [] = s := by
  simp [past]

@[simp] theorem past_past : (s.past tokens records).past more records' =
    s.past (tokens ++ more) (records ++ records') := by
  simp [past]

theorem ahead_past (tokens : List Token) (records : List Record) (h : s.ahead = tokens ++ after) :
    (s.past tokens records).ahead = after := by
  simp [past, h]

theorem skip_eq_past (tokens : List Token) (h : s.ahead = tokens ++ after) :
    s.skip tokens.length = s.past tokens [] := by
  simp [past, skip, h]

theorem next_eq {token : Token} {rest : List Token} (h : s.ahead = token :: rest) :
    s.next = token := by
  rw [next, h]
  rfl

end Session

namespace Reading

variable {α β : Type} {s s' : Session}

/-! ### Readings that succeed -/

theorem bind_eq_ok {x : Reading α} {f : α → Reading β} {b : β} :
    (x >>= f) s = .ok b s' ↔ ∃ a middle, x s = .ok a middle ∧ f a middle = .ok b s' := by
  rw [run_bind]
  cases x s with
  | error e after => simp
  | ok a middle =>
    constructor
    · intro h
      exact ⟨a, middle, rfl, h⟩
    · rintro ⟨_, _, ⟨⟩, h⟩
      exact h

theorem pure_eq_ok {a b : α} : (pure a : Reading α) s = .ok b s' ↔ a = b ∧ s = s' := by
  simp [pure, EStateM.pure]

theorem map_eq_ok {x : Reading α} {f : α → β} {b : β} :
    (f <$> x) s = .ok b s' ↔ ∃ a, x s = .ok a s' ∧ f a = b := by
  simp only [Functor.map, EStateM.map]
  cases x s with
  | error e after => simp
  | ok a after =>
    constructor
    · rintro ⟨⟩
      exact ⟨a, rfl, rfl⟩
    · rintro ⟨_, ⟨⟩, rfl⟩
      rfl

theorem map_ok {x : Reading α} {a : α} (f : α → β) (h : x s = .ok a s') :
    (f <$> x) s = .ok (f a) s' :=
  map_eq_ok.2 ⟨a, h, rfl⟩

theorem throw_ne_ok {error : ParseError} {a : α} : (throw error : Reading α) s ≠ .ok a s' := by
  rintro ⟨⟩

theorem require_eq_ok {holds : Bool} {error : ParseError} {u : Unit} :
    require holds error s = .ok u s' ↔ holds = true ∧ s' = s := by
  cases holds <;> simp [require, pure_eq_ok, throw_ne_ok, eq_comm]

theorem require_bind_eq_ok {holds : Bool} {error : ParseError} {x : Reading α} {a : α} :
    (require holds error >>= fun _ => x) s = .ok a s' ↔ holds = true ∧ x s = .ok a s' := by
  simp only [bind_eq_ok, require_eq_ok]
  constructor
  · rintro ⟨_, _, ⟨hholds, rfl⟩, h⟩
    exact ⟨hholds, h⟩
  · rintro ⟨hholds, h⟩
    exact ⟨(), s, ⟨hholds, rfl⟩, h⟩

theorem modify_eq_ok {f : Session → Session} {u : Unit} :
    (modify f : Reading Unit) s = .ok u s' ↔ s' = f s := by
  constructor
  · rintro ⟨⟩
    rfl
  · rintro rfl
    rfl

theorem peek_bind_eq_ok {f : Token → Reading α} {a : α} :
    (peek >>= f) s = .ok a s' ↔ f s.next s = .ok a s' := Iff.rfl

theorem ofLogged_eq_ok {action : Logged ParseError α} {a : α} :
    ofLogged action s = .ok a s' ↔ action.result = .ok a ∧ s' = s.past [] action.records := by
  rw [ofLogged, bind_eq_ok]
  simp only [record, modify_eq_ok]
  cases action.result <;> simp [pure_eq_ok, throw_ne_ok, Session.past, and_comm, eq_comm]

theorem take_ok {token : Token} {rest : List Token} (hahead : s.ahead = token :: rest)
    (htoken : token.kind ≠ .endOfFile) : take s = .ok token (s.past [token] []) := by
  have hstep : take s = .ok s.next s.advance := rfl
  have hnext := Session.next_eq hahead
  rw [hstep, Session.advance, hnext, if_neg htoken]
  exact congrArg _ (Session.skip_eq_past [token] hahead)

theorem take_eq_ok {token : Token} (h : s.next.kind ≠ .endOfFile) :
    take s = .ok token s' ↔ ∃ rest, s.ahead = token :: rest ∧ s' = s.past [token] [] := by
  obtain ⟨first, rest, hahead⟩ := List.exists_cons_of_ne_nil (Session.ahead_ne_nil h)
  rw [Session.next_eq hahead] at h
  rw [take_ok hahead h, hahead]
  constructor
  · rintro ⟨⟩
    exact ⟨rest, rfl, rfl⟩
  · rintro ⟨_, ⟨⟩, rfl⟩
    rfl

theorem expect_eq_ok {allowed : Kind → Bool} {fault : Fault} {token : Token}
    (hend : allowed .endOfFile = false) :
    expect allowed fault s = .ok token s' ↔
      allowed token.kind = true ∧ ∃ rest, s.ahead = token :: rest ∧ s' = s.past [token] [] := by
  rw [expect, peek_bind_eq_ok]
  by_cases hallowed : allowed s.next.kind = true
  · have hnext : s.next.kind ≠ .endOfFile := by
      intro h
      rw [h, hend] at hallowed
      cases hallowed
    rw [if_pos hallowed, take_eq_ok hnext]
    constructor
    · intro ⟨rest, hahead, hs'⟩
      exact ⟨Session.next_eq hahead ▸ hallowed, rest, hahead, hs'⟩
    · intro ⟨_, h⟩
      exact h
  · rw [if_neg hallowed]
    constructor
    · intro h
      cases h
    · intro ⟨htoken, rest, hahead, _⟩
      exact absurd (Session.next_eq hahead ▸ htoken) hallowed

end Reading

/-- The note that a token has been skipped. -/
def Diagnostic.ofSkipped (token : Token) : Diagnostic :=
  ⟨token.line, "skipped unexpected token " ++ token.display⟩

namespace Session

variable {s s' s'' : Session} {tokens more after skipped skipped' : List Token}

/-! ### Moves -/

/-- A session passes some tokens, and notes that it has skipped some of them.  Whatever it logs on
    the way does not matter. -/
structure Moves (s : Session) (tokens skipped : List Token) (s' : Session) : Prop where
  ahead : s.ahead = tokens ++ s'.ahead
  passed : s'.passed = tokens.reverse ++ s.passed
  options : s'.options = s.options
  endLine : s'.endLine = s.endLine
  diagnostics : s'.diagnostics = s.diagnostics ++ skipped.map Diagnostic.ofSkipped

namespace Moves

theorem refl (s : Session) : s.Moves [] [] s :=
  ⟨rfl, rfl, rfl, rfl, by simp⟩

theorem past (tokens : List Token) (records : List Record) (h : s.ahead = tokens ++ after) :
    s.Moves tokens [] (s.past tokens records) :=
  ⟨by simp [Session.past, h], rfl, rfl, rfl, by simp [Session.past]⟩

theorem trans (h : s.Moves tokens skipped s') (h' : s'.Moves more skipped' s'') :
    s.Moves (tokens ++ more) (skipped ++ skipped') s'' where
  ahead := by rw [h.ahead, h'.ahead, List.append_assoc]
  passed := by rw [h'.passed, h.passed, List.reverse_append, List.append_assoc]
  options := h'.options.trans h.options
  endLine := h'.endLine.trans h.endLine
  diagnostics := by rw [h'.diagnostics, h.diagnostics, List.map_append, List.append_assoc]

/-- The tokens before the session, first one first. -/
theorem before (h : s.Moves tokens skipped s') :
    s'.passed.reverse = s.passed.reverse ++ tokens := by
  rw [h.passed, List.reverse_append, List.reverse_reverse]

theorem ahead_eq (h : s.Moves tokens skipped s') (hahead : s.ahead = tokens ++ after) :
    s'.ahead = after :=
  List.append_cancel_left (h.ahead.symm.trans hahead)

theorem length_le (h : s.Moves tokens skipped s') : s'.ahead.length ≤ s.ahead.length := by
  rw [h.ahead, List.length_append]
  exact Nat.le_add_left _ _

theorem length_lt {token : Token} (h : s.Moves (token :: tokens) skipped s') :
    s'.ahead.length < s.ahead.length := by
  rw [h.ahead, List.length_append, List.length_cons]
  omega

end Moves

end Session

end CalcLang
