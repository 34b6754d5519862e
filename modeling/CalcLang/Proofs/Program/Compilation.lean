import CalcLang.Proofs.Program.Language
import CalcLang.Proofs.Scan.Words

/-! # Compiling a text

    What it takes for a text to be compiled, in terms of the grammar of programs:

    * `IsCompiled`: the tokens of a text are a program of the grammar, with the title that the options
      may ask for.
    * `compile_session_eq_ok_iff`: a list of tokens is compiled iff it is a program of the grammar.
    * `compile_eq_ok_iff`: a text is compiled iff its tokens are one.  The tree is the one of the
      grammar, and there is one note for each token that is skipped. -/

namespace CalcLang

open Reading

variable {options : ReadOptions} {source : String} {s s' : Session} {tree : Node}
  {body skipped : List Token} {statements : List Node}

/-! ### Sessions -/

/-- The session that reads some tokens and a token that ends them. -/
theorem ofTokens_append {terminator : Token} (options : ReadOptions) (body : List Token)
    (hend : terminator.kind = .endOfFile) :
    Session.ofTokens options (body ++ [terminator]) =
      ⟨options, [], body, terminator.line, [], []⟩ := by
  simp [Session.ofTokens, hend]

theorem ofTokens_append_endOfFile (options : ReadOptions) (body : List Token) (line : Nat) :
    Session.ofTokens options (body ++ [.endOfFile line]) = ⟨options, [], body, line, [], []⟩ :=
  ofTokens_append options body rfl

/-- What stands at the start of a program, if the options ask for a title. -/
def Session.HasTitle (s : Session) : Prop :=
  s.options.requireTitle = true → s.startsWithTitle = true

/-- The session at the end of a program whose statements have been read. -/
def Session.counted (s : Session) (count : Nat) : Session :=
  s.past [] (if s.options.debug then
    [⟨.debug, "parsed " ++ toString count ++ " top-level statements"⟩] else [])

theorem moves_counted (s : Session) (count : Nat) : s.Moves [] [] (s.counted count) :=
  .past [] _ rfl

/-- A program is read iff it has the title that is asked for and its statements are read. -/
theorem readProgram_eq_ok_iff : readProgram s = .ok tree s' ↔
    s.HasTitle ∧ ∃ statements middle, readBlock .program s = .ok statements middle ∧
      tree = programTree statements ∧ s' = middle.counted statements.length := by
  unfold readProgram
  rw [run_get_bind, require_bind_eq_ok]
  simp only [bind_eq_ok, run_trace, pure_eq_ok]
  have htitle : (!s.options.requireTitle || s.startsWithTitle) = true ↔ s.HasTitle := by
    unfold Session.HasTitle
    cases s.options.requireTitle <;> simp
  rw [htitle]
  constructor
  · intro ⟨htitle, statements, middle, hblock, _, _, htrace, htree, hlast⟩
    cases htrace
    exact ⟨htitle, statements, middle, hblock, htree.symm, hlast.symm⟩
  · intro ⟨htitle, statements, middle, hblock, htree, hlast⟩
    exact ⟨htitle, statements, middle, hblock, (), _, rfl, htree.symm, hlast.symm⟩

/-! ### Texts -/

/-- The tokens of a text are a program of the grammar, with the title that the options may ask
    for. -/
structure IsCompiled (options : ReadOptions) (source : String) (body skipped : List Token)
    (statements : List Node) : Prop where
  tokens : tokenize source = .ok (body ++ [.endOfFile (lastLine source.toList)])
  title : Session.HasTitle ⟨options, [], body, lastLine source.toList, [], []⟩
  block : IsBlock options .program [] body [] skipped statements

theorem IsCompiled.isInside (h : IsCompiled options source body skipped statements) :
    ∀ t ∈ body, t.kind.isInside = true := by
  obtain ⟨scanned, hscanned, htokens⟩ := tokenize_eq_ok_iff.1 h.tokens
  obtain rfl := List.append_inj_left' htokens rfl
  intro t ht
  exact isInside_of_scan hscanned t (mem_of_mem_trimLineBreaks ht)

theorem IsCompiled.isScanned (h : IsCompiled options source body skipped statements) :
    IsScanned body :=
  fun t ht => Kind.isScanned_of_isInside (h.isInside t ht)

/-- A text is compiled by the session that reads its tokens. -/
theorem compile_eq (options : ReadOptions) (source : String) :
    compile options source = match tokenize source with
      | .error error => .error (.lexical error)
      | .ok tokens => (Session.ofTokens options tokens).compile.result := by
  unfold compile compileLogged Session.ofSource tokenize
  rw [Logged.result_bind, Logged.result_mapError, Logged.result_bind]
  cases (tokenizeLogged source).result <;> rfl

theorem compile_session_eq_ok {compilation : Compilation} :
    s.compile.result = .ok compilation ↔
      ∃ last, readProgram s = .ok compilation.root last ∧
        compilation.diagnostics = last.diagnostics := by
  unfold Session.compile
  cases readProgram s with
  | error error last => simp
  | ok root last =>
    constructor
    · intro h
      cases h
      exact ⟨last, rfl, rfl⟩
    · intro ⟨last', hread, hnotes⟩
      cases hread
      show Except.ok (Compilation.mk _ last.diagnostics) = _
      rw [← hnotes]

/-- The tokens of a session are compiled iff they are a program of the grammar, with the title that is
    asked for. -/
theorem compile_session_eq_ok_iff {last : Nat} {compilation : Compilation} :
    (Session.compile ⟨options, [], body, last, [], []⟩).result = .ok compilation ↔
      Session.HasTitle ⟨options, [], body, last, [], []⟩ ∧ ∃ skipped statements,
        IsBlock options .program [] body [] skipped statements ∧
          compilation = ⟨programTree statements, skipped.map Diagnostic.ofSkipped⟩ := by
  rw [compile_session_eq_ok]
  constructor
  · intro ⟨_, hread, hnotes⟩
    obtain ⟨htitle, statements, middle, hblock, hroot, rfl⟩ := readProgram_eq_ok_iff.1 hread
    obtain ⟨skipped, hmoves, hgrammar⟩ := isBlock_of_readProgram ⟨rfl, rfl, rfl⟩ hblock
    refine ⟨htitle, skipped, statements, hgrammar, ?_⟩
    rw [(moves_counted middle _).diagnostics, hmoves.diagnostics] at hnotes
    cases compilation
    simp_all
  · intro ⟨htitle, skipped, statements, hgrammar, hcompilation⟩
    have hat : Session.At ⟨options, [], body, last, [], []⟩ options [] (body ++ []) :=
      ⟨rfl, rfl, (List.append_nil body).symm⟩
    obtain ⟨middle, hblock, hmoves⟩ := hgrammar.reads _ hat
    refine ⟨middle.counted statements.length, ?_, ?_⟩
    · rw [readProgram_eq_ok_iff, hcompilation]
      exact ⟨htitle, statements, middle, hblock, rfl, rfl⟩
    · rw [hcompilation, (moves_counted middle _).diagnostics, hmoves.diagnostics]
      simp

/-- A text is compiled iff its tokens are a program of the grammar.  The tree is the one of the
    grammar, and there is one note for each token that is skipped. -/
theorem compile_eq_ok_iff {compilation : Compilation} :
    compile options source = .ok compilation ↔ ∃ body skipped statements,
      IsCompiled options source body skipped statements ∧
        compilation = ⟨programTree statements, skipped.map Diagnostic.ofSkipped⟩ := by
  rw [compile_eq]
  constructor
  · intro h
    cases htokens : tokenize source with
    | error error =>
      rw [htokens] at h
      cases h
    | ok tokens =>
      obtain ⟨scanned, -, rfl⟩ := tokenize_eq_ok_iff.1 htokens
      rw [htokens] at h
      simp only [ofTokens_append_endOfFile, compile_session_eq_ok_iff] at h
      obtain ⟨htitle, skipped, statements, hgrammar, hcompilation⟩ := h
      exact ⟨_, skipped, statements, ⟨htokens, htitle, hgrammar⟩, hcompilation⟩
  · intro ⟨body, skipped, statements, hcompiled, hcompilation⟩
    rw [hcompiled.tokens]
    simp only [ofTokens_append_endOfFile, compile_session_eq_ok_iff]
    exact ⟨hcompiled.title, skipped, statements, hcompiled.block, hcompilation⟩

end CalcLang
