import CalcLang.Proofs.Condition.Locating
import CalcLang.Proofs.Program.Compilation
import CalcLang.Proofs.Program.Onward
import CalcLang.Proofs.Program.Relining
import CalcLang.Proofs.Scan.Placement
import Mathlib

/-! # Where a program is wrong

    What is wrong with a program is wrong on one of its lines:

    * `Reading.Located`: a reading that fails with a line, or with an error about a pair of
      parentheses around nothing.  It is a class, since it holds of whatever is put together from
      such readings.
    * `line_of_compile_error`: if an error has a line, then it is one of the text.
    * `compile_error_line`: every error of a text has a line of the text, or it is one that has none
      and there is a pair of parentheses around nothing. -/

namespace CalcLang

open ParseError

namespace Reading

variable {α β : Type} {s : Session} {x : Reading α} {f : α → Reading β}

/-- Reading at some place fails with a line, or there are parentheses around nothing ahead. -/
def LocatedAt (s : Session) (x : Reading α) : Prop :=
  ∀ error s', x s = .error error s' → error.IsLocatedIn s.ahead

/-- A reading that does so at any place. -/
class Located (x : Reading α) : Prop where
  locatedAt : ∀ s, LocatedAt s x

/-! ### Steps -/

theorem locatedAt_of_ok {a : α} {s' : Session} (h : x s = .ok a s') : LocatedAt s x := by
  intro error last herror
  rw [h] at herror
  cases herror

instance (a : α) : Located (pure a : Reading α) := ⟨fun _ => locatedAt_of_ok rfl⟩

instance (token : Token) (fault : Fault) : Located (throw (.pinned token fault) : Reading α) where
  locatedAt s error s' h := by
    cases h
    exact .inl (isLocated_pinned token fault)

instance (feature : Keyword) (line : Nat) :
    Located (throw (.unsupported feature line) : Reading α) where
  locatedAt s error s' h := by
    cases h
    exact .inl ⟨line, rfl⟩

instance : Located (get : Reading Session) := ⟨fun _ => locatedAt_of_ok rfl⟩

instance (g : Session → Session) : Located (modify g : Reading Unit) :=
  ⟨fun _ => locatedAt_of_ok rfl⟩

instance : Located take := ⟨fun _ => locatedAt_of_ok rfl⟩

/-- Behind a reading, only tokens are ahead that were ahead before. -/
theorem infix_of_onward (x : Reading α) [hx : Onward x] (s : Session) :
    (after x s).ahead <:+: s.ahead := by
  obtain ⟨tokens, skipped, hmoves⟩ := hx.moves s
  exact ⟨tokens, [], by rw [List.append_nil, hmoves.ahead]⟩

theorem LocatedAt.bind [Onward x] (hx : LocatedAt s x)
    (hf : ∀ a s', x s = .ok a s' → LocatedAt s' (f a)) : LocatedAt s (x >>= f) := by
  intro error s' h
  rw [run_bind] at h
  cases hrun : x s with
  | error e s₁ =>
    rw [hrun] at h
    cases h
    exact hx error s' hrun
  | ok a s₁ =>
    -- A pair of parentheses that is still ahead of the second part was ahead of the first one.
    rw [hrun] at h
    have hinfix := infix_of_onward x s
    rw [after_of_ok hrun] at hinfix
    exact (hf a s₁ hrun error s' h).mono hinfix

theorem Located.bind [Onward x] (hx : Located x) (hf : ∀ a, Located (f a)) : Located (x >>= f) :=
  ⟨fun s => (hx.locatedAt s).bind fun a s' _ => (hf a).locatedAt s'⟩

instance [Onward x] [hx : Located x] [hf : ∀ a, Located (f a)] : Located (x >>= f) := hx.bind hf

instance {g : α → β} [hx : Located x] : Located (g <$> x) where
  locatedAt s error s' h := by
    simp only [Functor.map, EStateM.map] at h
    cases hrun : x s with
    | error e s₁ =>
      rw [hrun] at h
      cases h
      exact hx.locatedAt s error s' hrun
    | ok a s₁ =>
      rw [hrun] at h
      cases h

instance {c : Prop} [Decidable c] {y : Reading α} [Located x] [Located y] :
    Located (if c then x else y) := by
  split <;> assumption

/-- A reading that looks at the session first. -/
theorem located_get_bind {g : Session → Reading β} (h : ∀ s, LocatedAt s (g s)) :
    Located (get >>= g) :=
  ⟨fun s => h s⟩

instance : Located peek := by unfold peek; infer_instance

instance (allowed : Kind → Bool) (fault : Fault) : Located (expect allowed fault) := by
  unfold expect
  infer_instance

instance (holds : Bool) (token : Token) (fault : Fault) :
    Located (require holds (.pinned token fault)) := by
  unfold require
  infer_instance

instance (records : List Record) : Located (record records) := by unfold record; infer_instance

instance (text : String) : Located (trace text) := by
  unfold trace
  infer_instance

instance (diagnostic : Diagnostic) : Located (note diagnostic) := by unfold note; infer_instance

theorem locatedAt_ofLogged {action : Logged ParseError α}
    (h : action.FailsWith (IsLocatedIn s.ahead)) : LocatedAt s (ofLogged action) := by
  intro error s' herror
  obtain ⟨records, result⟩ := action
  cases result with
  | error e =>
    cases herror
    exact h error rfl
  | ok a => cases herror

/-- A span is read only if there is something to read. -/
theorem locatedAt_require_bind {span : List Token} {token : Token} {fault : Fault} {y : Reading α}
    (h : span ≠ [] → LocatedAt s y) :
    LocatedAt s (require (!span.isEmpty) (.pinned token fault) >>= fun _ => y) := by
  cases span with
  | nil =>
    intro error s' herror
    cases herror
    exact .inl (isLocated_pinned token fault)
  | cons first rest => exact h (List.cons_ne_nil first rest)

end Reading

open Reading

/-! ### Statements -/

instance : Located readTitle := by unfold readTitle; infer_instance

instance : Located readVersion := by unfold readVersion; infer_instance

instance : Located readDeclaration := by unfold readDeclaration; infer_instance

instance : Located readImplicit := by unfold readImplicit; infer_instance

instance : Located readJump := by unfold readJump; infer_instance

instance : Located readDisp := by unfold readDisp; infer_instance

instance : Located readDispStr := by unfold readDispStr; infer_instance

instance : Located skipUnknown := by unfold skipUnknown; infer_instance

instance : Located readAssignment := by
  unfold readAssignment
  refine .bind inferInstance fun target => .bind inferInstance fun arrow => ?_
  -- The rest of the line is only read if there is something on it.
  refine located_get_bind fun s => locatedAt_require_bind fun hsome => ?_
  refine (locatedAt_ofLogged ?_).bind fun tree s' _ => Located.locatedAt s'
  exact (located_readExpression _ _ hsome).mono fun _ => .inl

theorem located_readStore {span : List Token} (arrow target : Token) (hsome : span ≠ []) :
    Located (readStore span arrow target) := by
  unfold readStore
  refine located_get_bind fun s => (locatedAt_ofLogged ?_).bind fun tree s' _ => Located.locatedAt s'
  exact (located_readExpression _ _ hsome).mono fun _ => .inl

section Blocks

variable {readBlock : BlockEnd → Reading (List Node)} [∀ stop, Onward (readBlock stop)]
  [∀ stop, Located (readBlock stop)]

instance (opener : Token) (stop : BlockEnd) : Located (readBranch readBlock opener stop) := by
  unfold readBranch
  infer_instance

instance : Located (readAlternative readBlock) := by unfold readAlternative; infer_instance

instance (keyword : Token) : Located (readBranches readBlock keyword) := by
  unfold readBranches
  infer_instance

instance : Located (readConditional readBlock) := by
  unfold readConditional
  refine .bind inferInstance fun keyword => ?_
  refine located_get_bind fun s => locatedAt_require_bind fun hsome => ?_
  refine (locatedAt_ofLogged ?_).bind fun condition s' _ => Located.locatedAt s'
  -- The condition is a part of the line ahead.
  exact (located_readCondition _).mono hsome
    ((List.takeWhile_prefix _).isInfix.trans (List.takeWhile_prefix _).isInfix)

instance : Located (readStatement readBlock) := by
  unfold readStatement
  refine .bind inferInstance fun session => .bind inferInstance fun _ => ?_
  split
  case h_11 =>
    -- A line that stores has something before its arrow.
    split
    · infer_instance
    · split
      · next span arrow target hparts =>
        have hstore := storeParts?_eq_some_iff.1 (Option.ite_none_right_eq_some.1 hparts).2
        have hlocated := located_readStore arrow target hstore.nonempty
        infer_instance
      · infer_instance
  all_goals infer_instance

end Blocks

/-! ### Blocks and programs -/

instance (room : Nat) (stop : BlockEnd) : Located (readBlockWithin room stop) := by
  induction room generalizing stop with
  | zero => unfold readBlockWithin; infer_instance
  | succ room ih =>
    unfold readBlockWithin
    refine .bind inferInstance fun session => ?_
    split <;> infer_instance

instance (stop : BlockEnd) : Located (readBlock stop) := by unfold readBlock; infer_instance

instance : Located readProgram := by unfold readProgram; infer_instance

/-! ### Lines of a text -/

variable {options : ReadOptions} {source : String} {error : ParseError} {body : List Token}
  {last : Nat}

/-- An error has a line, or there are parentheses around nothing among the tokens of the program. -/
theorem locatedIn_compile
    (h : (Session.compile ⟨options, [], body, last, [], []⟩).result = .error error) :
    error.IsLocatedIn body := by
  unfold Session.compile at h
  cases hread : readProgram ⟨options, [], body, last, [], []⟩ with
  | ok root s' =>
    rw [hread] at h
    cases h
  | error e s' =>
    rw [hread] at h
    cases h
    exact Located.locatedAt _ error s' hread

theorem line?_relined (f : Nat → Nat) (error : ParseError) :
    (error.relined f).line? = error.line?.map f := by
  cases error <;> rfl

/-- The closest line among those up to the last one. -/
def lineWithin (last line : Nat) : Nat := max 1 (min line last)

theorem lineWithin_eq {line : Nat} (hone : 1 ≤ line) (hlast : line ≤ last) :
    lineWithin last line = line := by
  unfold lineWithin
  omega

/-- If an error has a line, then it is one of the text. -/
theorem line_of_compile_error (h : compile options source = .error error) :
    ∀ line ∈ error.line?, 1 ≤ line ∧ line ≤ lastLine source.toList := by
  rw [compile_eq] at h
  cases htokens : tokenize source with
  | error e =>
    rw [htokens] at h
    cases h
    intro line hline
    cases hline
    exact failsWith_scan _ _ _ e (tokenize_eq_error_iff.1 htokens)
  | ok tokens =>
    obtain ⟨body, first, rfl, -, -, hstand, hone, hlast⟩ := exists_body_of_tokenize htokens
    rw [htokens] at h
    simp only [ofTokens_append_endOfFile] at h
    -- Moving all lines into the text moves none of the tokens, so it does not move the error.
    have hmoved := compile_relined (lineWithin (lastLine source.toList)) options body
      (lastLine source.toList)
    have hbody : body.map (Token.relined (lineWithin (lastLine source.toList))) = body := by
      refine (map_relined_congr (g := id) ?_).trans (List.map_id _)
      intro t ht
      have hline := hstand.line_mem t ht
      exact lineWithin_eq (by omega) (by omega)
    rw [hbody, lineWithin_eq (by omega) (Nat.le_refl _), h] at hmoved
    have hsame : error.line? = (error.relined _).line? :=
      congrArg ParseError.line? (Except.error.inj hmoved)
    rw [line?_relined] at hsame
    intro line hline
    rw [Option.mem_def.1 hline, Option.map_some, Option.some_inj, lineWithin] at hsame
    omega

/-! ### Main result -/

/-- Every error of a text has a line, which is one of the text, unless nothing is left of a
    condition without the parentheses around it.  Then there is a pair of parentheses around nothing
    in the text. -/
theorem compile_error_line (options : ReadOptions) (source : String) (error : ParseError)
    (h : compile options source = .error error) :
    (∃ line, error.line? = some line ∧ 1 ≤ line ∧ line ≤ lastLine source.toList) ∨
      error = .nowhere .expectedCondition ∧
        ∃ tokens, tokenize source = .ok tokens ∧ HasEmptyPair tokens := by
  have hlines := line_of_compile_error h
  rw [compile_eq] at h
  cases htokens : tokenize source with
  | error e =>
    rw [htokens] at h
    cases h
    exact .inl ⟨e.line, rfl, hlines e.line rfl⟩
  | ok tokens =>
    obtain ⟨body, first, rfl, -⟩ := exists_body_of_tokenize htokens
    rw [htokens] at h
    simp only [ofTokens_append_endOfFile] at h
    rcases locatedIn_compile h with ⟨line, hline⟩ | ⟨herror, hpair⟩
    · exact .inl ⟨line, hline, hlines line hline⟩
    · exact .inr ⟨herror, _, rfl, hpair.mono (List.prefix_append _ _).isInfix⟩

/-- A conditional that is never ended is reported on the line of its `IF`. -/
theorem compile_error_line_missingEnd :
    compile .default "DISP A\nIF A == 1 THEN\nDISP B" =
        .error (.grammar .missingEnd (some "IF") (some 2)) ∧
      ((∃ line, (ParseError.grammar .missingEnd (some "IF") (some 2)).line? = some line ∧
        1 ≤ line ∧ line ≤ lastLine "DISP A\nIF A == 1 THEN\nDISP B".toList) ∨
      ParseError.grammar .missingEnd (some "IF") (some 2) = .nowhere .expectedCondition ∧
        ∃ tokens, tokenize "DISP A\nIF A == 1 THEN\nDISP B" = .ok tokens ∧ HasEmptyPair tokens) := by
  have h : compile .default "DISP A\nIF A == 1 THEN\nDISP B" =
      .error (.grammar .missingEnd (some "IF") (some 2)) := by
    cbv
  exact ⟨h, compile_error_line _ _ _ h⟩

/-- Nothing is left of the condition of `IF ()`, and its error has no line. -/
theorem compile_error_line_unlocated :
    compile .default "IF ()" = .error (.nowhere .expectedCondition) ∧
      ¬ ∃ line, (ParseError.nowhere .expectedCondition).line? = some line ∧
        1 ≤ line ∧ line ≤ lastLine "IF ()".toList := by
  refine ⟨by cbv, ?_⟩
  rintro ⟨line, hline, -⟩
  cases hline

/-- Beside a connective, the same parentheses are reported where they stand. -/
example : compile .default "IF () AND A == 1" =
    .error (.grammar .emptyParens (some "L_PAREN") (some 1)) := by
  cbv

end CalcLang
