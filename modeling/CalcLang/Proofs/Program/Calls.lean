import CalcLang.Proofs.Program.Compilation
import CalcLang.Proofs.Program.Alignment
import CalcLang.Proofs.Program.Steps

/-! # A session that is called again

    A session keeps its place when it fails, so it may be asked for a program again and again.

    * `Session.afterCalls`: the session behind some such calls.
    * `Session.IsAtEnd`: the place behind a call that succeeds.  From there on, every call gives the
      tree of no statements.
    * `readProgram_calls`: what is known of a session of any tokens, whatever the calls before. -/

namespace CalcLang

open Reading

variable {s s' : Session} {stop : BlockEnd} {statement : Option Node} {statements : List Node}

/-! ### Places -/

/-- A session behind some calls that read a program, failing or not. -/
def Session.afterCalls (s : Session) : Nat → Session
  | 0 => s
  | calls + 1 => after readProgram (s.afterCalls calls)

/-- A session at the last token of its program, which is the only one that ends a program. -/
structure Session.IsAtEnd (s : Session) : Prop where
  position : s.position + 1 = s.tokens.length
  only : ∀ i : Nat, (s.tokens[i]?.map Token.kind = some .endOfFile ↔ i = s.position)

theorem Session.position_add_ahead (s : Session) :
    s.position + s.ahead.length + 1 = s.tokens.length := by
  simp [position, tokens, Nat.add_assoc]

theorem Session.steps_afterCalls (s : Session) (calls : Nat) : s.Steps (s.afterCalls calls) := by
  induction calls with
  | zero => exact .refl s
  | succ calls ih => exact ih.trans (Stepwise.steps _)

/-- A session inside its program that has nothing ahead is at the end. -/
theorem Session.IsInside.isAtEnd (h : s.IsInside) (hahead : s.ahead = []) : s.IsAtEnd := by
  have htokens : s.tokens = s.passed.reverse ++ [s.terminator] := by
    rw [tokens, hahead, List.append_nil]
  have hlength : s.passed.reverse.length = s.position := List.length_reverse
  refine ⟨by rw [htokens, List.length_append, hlength]; rfl, ?_⟩
  intro i
  rcases Nat.lt_trichotomy i s.position with hlt | rfl | hgt
  · -- The tokens behind the session do not end a program.
    have hi : i < s.passed.reverse.length := hlength ▸ hlt
    have hinside := isInside_iff.1 h s.passed.reverse[i] (List.mem_reverse.1 (List.getElem_mem hi))
    rw [htokens, List.getElem?_append_left hi, List.getElem?_eq_getElem hi, Option.map_some,
      Option.some_inj]
    exact ⟨fun hend => absurd hend hinside, fun hi => absurd hi (Nat.ne_of_lt hlt)⟩
  · rw [htokens, ← hlength, List.getElem?_concat_length]
    exact ⟨fun _ => rfl, fun _ => rfl⟩
  · have hlast : s.tokens.length ≤ i := by
      rw [htokens, List.length_append, hlength]
      exact hgt
    rw [List.getElem?_eq_none hlast, Option.map_none]
    exact iff_of_false (Option.some_ne_none _).symm (Nat.ne_of_gt hgt)

/-! ### One call -/

/-- A statement that is read passes at least one token. -/
theorem position_of_readStatement (hstep : stop.step s.next.kind = .statement)
    (h : readStatement readBlock s = .ok statement s') : s.position < s'.position := by
  have hshorter := passing_readStatement forward_readBlock s statement s'
    (BlockEnd.kind_ne_of_step hstep nofun) h
  have hsteps := Stepwise.steps (x := readStatement readBlock) s
  rw [StepwiseAt, after_of_ok h] at hsteps
  have hhere := s.position_add_ahead
  have hthere := s'.position_add_ahead
  rw [hsteps.later.tokens] at hthere
  omega

/-- The bound on the steps of a block may be any that is greater than the number of tokens ahead. -/
theorem readBlockWithin_eq {room : Nat} (stop : BlockEnd) (h : s.ahead.length < room) :
    readBlockWithin room stop s = readBlock stop s := by
  unfold readBlock
  rw [run_get_bind]
  exact readBlockWithin_congr stop h (Nat.lt_succ_self _)

/-- With nothing ahead, there is no statement to read. -/
theorem readProgram_of_nil (htitle : s.HasTitle) (hahead : s.ahead = []) :
    readProgram s = .ok (programTree []) (s.counted 0) := by
  have hblock : readBlock .program s = .ok [] s := by
    apply readBlock_finish
    rw [hahead]
    trivial
  exact readProgram_eq_ok_iff.2 ⟨htitle, [], s, hblock, rfl, rfl⟩

theorem Session.Later.hasTitle (h : s.Later s') (htitle : s.HasTitle) : s'.HasTitle := by
  intro hask
  rw [h.options] at hask
  have hstart := htitle hask
  unfold startsWithTitle at hstart ⊢
  rw [h.tokens]
  exact hstart

/-- A session that has read a program has nothing ahead, and the title that may be asked for. -/
theorem ahead_of_outcome {root : Node} (h : outcome readProgram s = .ok root) :
    (after readProgram s).ahead = [] ∧ (after readProgram s).HasTitle := by
  have hsteps := Stepwise.steps (x := readProgram) s
  unfold StepwiseAt at hsteps
  cases hrun : readProgram s with
  | error e s' =>
    rw [outcome, hrun] at h
    cases h
  | ok tree s' =>
    rw [after_of_ok hrun] at hsteps ⊢
    obtain ⟨htitle, statements, middle, hblock, -, rfl⟩ := readProgram_eq_ok_iff.1 hrun
    have hahead : middle.ahead = [] := ahead_of_readProgram hblock
    exact ⟨hahead, hsteps.later.hasTitle htitle⟩

/-- From the end on, calls change nothing but the log. -/
theorem afterCalls_of_nil (htitle : s.HasTitle) (hahead : s.ahead = []) (calls : Nat) :
    (s.afterCalls calls).HasTitle ∧ (s.afterCalls calls).ahead = [] ∧
      (s.afterCalls calls).diagnostics = s.diagnostics := by
  induction calls with
  | zero => exact ⟨htitle, hahead, rfl⟩
  | succ calls ih =>
    obtain ⟨htitle', hahead', hnotes⟩ := ih
    rw [Session.afterCalls, after_of_ok (readProgram_of_nil htitle' hahead')]
    exact ⟨htitle', hahead', hnotes⟩

/-! ### Main result -/

/-- A session of any tokens, behind any number of calls.  The next call goes on in steps, and
    wherever they lead, the session is inside its program and can only go on from there.  Each
    statement that is read passes a token, so blocks come to an end, with as much room as there are
    tokens ahead.  If the call succeeds, then the session is at the end, and all that follow it give
    the tree of no statements and note nothing. -/
theorem readProgram_calls (options : ReadOptions) (tokens : List Token) (calls : Nat) :
    let start := Session.ofTokens options tokens
    let s := start.afterCalls calls
    let s' := after readProgram s
    start.Later s ∧ s.Steps s' ∧ (∀ t t', s.Steps t → t.Steps t' → t.IsInside ∧ t.Later t') ∧
      (∀ (stop : BlockEnd) t statement t', stop.step t.next.kind = .statement →
        readStatement readBlock t = .ok statement t' → t.position < t'.position) ∧
      (∀ room stop t, t.ahead.length < room → readBlockWithin room stop t = readBlock stop t) ∧
      ∀ root, outcome readProgram s = .ok root →
        s'.IsAtEnd ∧ ∀ more, (s'.afterCalls more).diagnostics = s'.diagnostics ∧
          outcome readProgram (s'.afterCalls more) = .ok ⟨.plain (.phrase .prog) 0, none, []⟩ := by
  intro start s s'
  have hstart : start.Steps s := start.steps_afterCalls calls
  have hcall : s.Steps s' := Stepwise.steps s
  have hinside (t : Session) (ht : s.Steps t) : t.IsInside :=
    (hstart.trans ht).isInside (Session.isInside_ofTokens options tokens)
  refine ⟨hstart.later, hcall, fun t t' ht ht' => ⟨hinside t ht, ht'.later⟩,
    fun _ _ _ _ => position_of_readStatement, fun _ stop _ => readBlockWithin_eq stop, ?_⟩
  intro root hroot
  obtain ⟨hahead, htitle⟩ := ahead_of_outcome hroot
  refine ⟨(hinside s' hcall).isAtEnd hahead, fun more => ?_⟩
  obtain ⟨htitle', hahead', hnotes⟩ := afterCalls_of_nil htitle hahead more
  refine ⟨hnotes, ?_⟩
  rw [outcome, readProgram_of_nil htitle' hahead']
  rfl

/-- In `5 DISP DISP A`, the first call notes the number and fails at the second `DISP`.  The next
    call goes on there. -/
theorem readProgram_calls_resumed :
    let start := Session.ofTokens .default [⟨.literal .int, some "5", 1⟩, ⟨.keyword .disp, none, 1⟩,
      ⟨.keyword .disp, none, 1⟩, ⟨.var .scalar, some "A", 1⟩]
    let s' := after readProgram (start.afterCalls 1)
    outcome readProgram (start.afterCalls 0) =
        .error (.grammar .expectedOutput (some "DISP") (some 1)) ∧
      outcome readProgram (start.afterCalls 1) = .ok ⟨.plain (.phrase .prog) 0, none,
        [.branch ⟨.keyword .disp, none, 1⟩ [.leaf ⟨.var .scalar, some "A", 1⟩]]⟩ ∧
      s'.IsAtEnd ∧ (s'.afterCalls 1).diagnostics = [⟨1, "skipped unexpected token INT_LIT:5"⟩] ∧
      outcome readProgram (s'.afterCalls 1) = .ok ⟨.plain (.phrase .prog) 0, none, []⟩ := by
  intro start s'
  have hsecond : outcome readProgram (start.afterCalls 1) = .ok ⟨.plain (.phrase .prog) 0, none,
      [.branch ⟨.keyword .disp, none, 1⟩ [.leaf ⟨.var .scalar, some "A", 1⟩]]⟩ := rfl
  obtain ⟨-, -, -, -, -, hok⟩ := readProgram_calls .default
    [⟨.literal .int, some "5", 1⟩, ⟨.keyword .disp, none, 1⟩, ⟨.keyword .disp, none, 1⟩,
      ⟨.var .scalar, some "A", 1⟩] 1
  obtain ⟨hend, hmore⟩ := hok _ hsecond
  exact ⟨rfl, hsecond, hend, (hmore 1).1, (hmore 1).2⟩

end CalcLang
