import CalcLang.Proofs.Program.Pairing

/-! # The two policies

    A lenient run, which skips tokens that start no statement, beside a strict one, to which they are
    errors.  The policy matters to nothing else, so the two runs do the same until the first token is
    skipped, and the strict run ends there:

    * `readExpression_congr`, `readCondition_congr`: the options that matter to a span.
    * `policies`: the pairing of the two runs.
    * `readProgram_policies`: what the strict run gives, in terms of the lenient one. -/

namespace CalcLang

open Reading

variable {options : ReadOptions} {span : List Token}

/-! ### Spans -/

section Spans

variable {options' : ReadOptions} (hprecedence : options.precedence = options'.precedence)
  (hdebug : options.debug = options'.debug)

include hprecedence hdebug

/-- Expressions are read by the precedence and with the traces of the options, whatever else these
    say. -/
theorem readExpression_congr (span : List Token) :
    readExpression options span = readExpression options' span := by
  have hwithin (room : Nat) :
      readExpressionWithin options room = readExpressionWithin options' room := by
    induction room with
    | zero =>
      funext span
      cases span <;> rfl
    | succ room ih =>
      funext span
      cases span with
      | nil => rfl
      | cons first rest =>
        rw [readExpressionWithin, readExpressionWithin, ih, readLevel, readLevel, hprecedence, hdebug]
  rw [readExpression, readExpression, hwithin]

theorem readComparison_congr_options (span : List Token) :
    readComparison options span = readComparison options' span := by
  unfold readComparison
  simp only [readExpression_congr hprecedence hdebug, hdebug]

/-- So are conditions. -/
theorem readCondition_congr (span : List Token) :
    readCondition options span = readCondition options' span := by
  have hwithin (room : Nat) :
      readConditionWithin options room = readConditionWithin options' room := by
    induction room with
    | zero =>
      funext span
      cases span <;> rfl
    | succ room ih =>
      funext span
      cases span with
      | nil => rfl
      | cons first rest =>
        rw [readConditionWithin, readConditionWithin, ih, readConditionLevel, readConditionLevel,
          readComparison_congr_options hprecedence hdebug, hdebug]
  rw [readCondition, readCondition, hwithin]

end Spans

/-- Expressions are read in the same way under either policy. -/
theorem readExpression_policy (options : ReadOptions) (policy : UnknownPolicy) (span : List Token) :
    readExpression { options with unknownStatements := policy } span =
      readExpression options span :=
  readExpression_congr (by rfl) (by rfl) span

/-- Conditions are read in the same way under either policy. -/
theorem readCondition_policy (options : ReadOptions) (policy : UnknownPolicy) (span : List Token) :
    readCondition { options with unknownStatements := policy } span =
      readCondition options span :=
  readCondition_congr (by rfl) (by rfl) span

/-! ### The pairing -/

/-- A lenient run that has skipped nothing yet beside a strict one.  They are parted by the first token
    that is skipped. -/
def policies : Pairing where
  options o p := o.unknownStatements = .skip ∧ p = { o with unknownStatements := .reject }
  token := Eq
  node := Eq
  note _ _ := False
  error := Eq
  span _ := True
  parted notes e :=
    ∃ token more, notes = .ofSkipped token :: more ∧ e = .pinned token .unexpectedToken
  kind_eq h := by rw [h]
  requireTitle_eq h := by rw [h.2]
  node_branch h hs := by rw [h, eq_of_forall₂ hs]
  node_block h hs := by rw [h, eq_of_forall₂ hs]
  error_pinned fault h := by rw [h]
  error_unsupported feature h := by rw [h]
  span_prefix _ _ := trivial
  expression h _ hs := by
    rw [h.2, readExpression_policy _ .reject, eq_of_forall₂ hs]
    exact .refl (fun _ => rfl) (fun _ => rfl) _
  condition h _ hs := by
    rw [h.2, readCondition_policy _ .reject, eq_of_forall₂ hs]
    exact .refl (fun _ => rfl) (fun _ => rfl) _
  unknown h htoken := by
    refine .inr ⟨h.1, by rw [h.2], fun notes notes' hnotes => ?_⟩
    cases hnotes with
    | nil => exact ⟨_, [], rfl, by rw [htoken]⟩
    | cons hfirst _ => exact hfirst.elim
  parted_append more h := by
    obtain ⟨token, rest, hnotes, he⟩ := h
    exact ⟨token, rest ++ more, by rw [hnotes, List.cons_append], he⟩

/-- Runs that are not parted have noted nothing: there is no note that the strict run could match. -/
theorem diagnostics_eq_nil {s t : Session} (hs : policies.Sessions s t) : s.diagnostics = [] := by
  have hnotes := hs.diagnostics
  generalize s.diagnostics = notes, t.diagnostics = notes' at hnotes ⊢
  cases hnotes with
  | nil => rfl
  | cons hfirst _ => exact hfirst.elim

theorem sessions_ofTokens (options : ReadOptions) (tokens : List Token) :
    policies.Sessions (.ofTokens { options with unknownStatements := .skip } tokens)
      (.ofTokens { options with unknownStatements := .reject } tokens) := by
  have hsame (here : List Token) : List.Forall₂ policies.token here here :=
    List.forall₂_same.2 fun _ _ => rfl
  unfold Session.ofTokens
  cases tokens.getLast? with
  | none => exact ⟨⟨rfl, rfl⟩, .nil, .nil, rfl, .nil, fun _ _ _ => trivial⟩
  | some last => exact ⟨⟨rfl, rfl⟩, .nil, hsame _, rfl, .nil, fun _ _ _ => trivial⟩

/-! ### Main result -/

/-- What a strict run gives, in terms of what a lenient one notes and gives: the same, or the error
    that the token of the first note is. -/
structure StrictOutcome (notes : List Diagnostic) (lenient strict : Except ParseError Node) :
    Prop where
  same : notes = [] → strict = lenient
  rejected : ∀ note more, notes = note :: more →
    ∃ token error, note = ⟨token.line, "skipped unexpected token " ++ token.display⟩ ∧
      strict = .error error ∧ error = .pinned token .unexpectedToken ∧
      error.summary = "unexpected token at start of statement"

theorem strictOutcome_of_same {lenient strict : Except ParseError Node} (h : strict = lenient) :
    StrictOutcome [] lenient strict :=
  ⟨fun _ => h, nofun⟩

theorem strictOutcome_of_parted {notes : List Diagnostic} {e : ParseError}
    {lenient : Except ParseError Node} (h : policies.parted notes e) :
    StrictOutcome notes lenient (.error e) := by
  obtain ⟨token, rest, rfl, rfl⟩ := h
  refine ⟨nofun, fun note more hnotes => ?_⟩
  cases hnotes
  exact ⟨token, _, rfl, rfl, rfl, rfl⟩

/-- Whatever the tokens and the other options, a strict run gives the same tree or the same error as a
    lenient one that notes nothing.  If the lenient one notes something, also if it fails later on, the
    strict one fails at the token of the first note. -/
theorem readProgram_policies (options : ReadOptions) (tokens : List Token) :
    let lenient := Session.ofTokens { options with unknownStatements := .skip } tokens
    let strict := Session.ofTokens { options with unknownStatements := .reject } tokens
    StrictOutcome (after readProgram lenient).diagnostics (outcome readProgram lenient)
      (outcome readProgram strict) := by
  intro lenient strict
  have hruns := policies.agree_readProgram lenient strict (sessions_ofTokens options tokens)
  unfold after outcome
  generalize readProgram lenient = one, readProgram strict = two at hruns ⊢
  cases hruns with
  | ok hroots hs =>
    obtain ⟨statements, statements', hstatements, rfl, rfl⟩ := hroots
    show StrictOutcome _ (.ok _) (.ok _)
    rw [diagnostics_eq_nil hs, eq_of_forall₂ hstatements]
    exact strictOutcome_of_same rfl
  | error herror hs =>
    show StrictOutcome _ (.error _) (.error _)
    rw [diagnostics_eq_nil hs]
    exact strictOutcome_of_same (congrArg _ herror.symm)
  | partedOk hparted => exact strictOutcome_of_parted hparted
  | partedError hparted => exact strictOutcome_of_parted hparted

/-- The strict run of `5 DISP A` ends at the number. -/
theorem readProgram_policies_rejected :
    ∃ token error, (⟨1, "skipped unexpected token INT_LIT:5"⟩ : Diagnostic) =
        ⟨token.line, "skipped unexpected token " ++ token.display⟩ ∧
      outcome readProgram (.ofTokens ⟨.standard, .reject, false, false⟩
        [⟨.literal .int, some "5", 1⟩, ⟨.keyword .disp, none, 1⟩, ⟨.var .scalar, some "A", 1⟩,
          ⟨.endOfFile, none, 1⟩]) = .error error ∧
      error = .pinned token .unexpectedToken ∧
      error.summary = "unexpected token at start of statement" :=
  (readProgram_policies .default
    [⟨.literal .int, some "5", 1⟩, ⟨.keyword .disp, none, 1⟩, ⟨.var .scalar, some "A", 1⟩,
      ⟨.endOfFile, none, 1⟩]).rejected _ [] rfl

end CalcLang
