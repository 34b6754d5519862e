import CalcLang.CommandLine.Run
import CalcLang.Proofs.Program.Compilation
import CalcLang.Proofs.Program.Tracing

/-! # What a command line comes to

    The arguments are taken in one after another, but all that counts is which options are among them
    and which file:

    * `Command.foldlM_add_eq_ok_iff`: when the arguments can be taken in, and what they then ask for,
      said by what is among them and without an order.
    * `Command.ofArguments_congr`: the same options and the same file ask for the same, in any order
      and however often.
    * `compile_debug`: a program is compiled to the same whether or not that is traced.
    * `runArguments_outcome`: the exit code and the output of a run on a file. -/

namespace CalcLang

variable {arguments arguments' : List String} {argument path source : String} {command : Command}

namespace Command

/-! ### Arguments -/

/-- The options that exist. -/
def knownOptions : List String :=
  ["--tokens", "--tree", "--view", "--strict", "--legacy-precedence", "--require-header", "--debug"]

/-- The options that say what is printed. -/
def outputOptions : List String := ["--tokens", "--tree", "--debug"]

/-- The arguments that name files. -/
def files (arguments : List String) : List String := arguments.filter (!isOption ·)

/-- Arguments that can be followed: every option exists, and there is at most one file. -/
structure Acceptable (arguments : List String) : Prop where
  known : ∀ argument ∈ arguments, isOption argument = true → argument ∈ knownOptions
  single : (files arguments).length ≤ 1

/-- Two command lines with the same files and the same options, apart from some that do not count.
    Neither the order nor a repetition of an option counts. -/
structure Alike (ignored arguments arguments' : List String) : Prop where
  options : ∀ argument, isOption argument = true → argument ∉ ignored →
    (argument ∈ arguments' ↔ argument ∈ arguments)
  files : (files arguments').Perm (files arguments)

/-- How a program is read under the options among some arguments. -/
def selected (arguments : List String) : ReadOptions where
  precedence := if "--legacy-precedence" ∈ arguments then .legacy else .standard
  unknownStatements := if "--strict" ∈ arguments then .reject else .skip
  requireTitle := "--strict" ∈ arguments ∨ "--require-header" ∈ arguments
  debug := "--debug" ∈ arguments

/-- What some arguments have asked for. -/
def taken (arguments : List String) : Command where
  file := (files arguments).head?
  tokens := "--tokens" ∈ arguments
  tree := "--tree" ∈ arguments
  view := "--view" ∈ arguments
  options := selected arguments

theorem isOption_of_known (h : argument ∈ knownOptions) : isOption argument = true := by
  have hall : knownOptions.all isOption = true := by decide
  exact List.all_eq_true.1 hall argument h

theorem mem_files (hpath : path ∈ arguments) (hfile : isOption path = false) :
    path ∈ files arguments :=
  List.mem_filter.2 ⟨hpath, by simp [hfile]⟩

theorem files_append (arguments arguments' : List String) :
    files (arguments ++ arguments') = files arguments ++ files arguments' :=
  List.filter_append ..

theorem files_option (h : isOption argument = true) : files [argument] = [] := by
  simp [files, h]

theorem files_file (h : isOption argument = false) : files [argument] = [argument] := by
  simp [files, h]

/-! ### Taking in arguments -/

/-- An option leaves its mark, whatever has been asked for before. -/
theorem add_of_known (arguments : List String) (h : argument ∈ knownOptions) :
    add (taken arguments) argument = .ok (taken (arguments ++ [argument])) := by
  have hfiles : files (arguments ++ [argument]) = files arguments := by
    rw [files_append, files_option (isOption_of_known h), List.append_nil]
  simp only [knownOptions, List.mem_cons, List.not_mem_nil, or_false] at h
  rcases h with rfl | rfl | rfl | rfl | rfl | rfl | rfl <;>
    simp [add, taken, selected, hfiles, List.mem_append]

/-- All other arguments are files, unless they look like options. -/
theorem add_of_unknown (command : Command) (h : argument ∉ knownOptions) :
    add command argument =
      if isOption argument then .error (.unknownOption argument)
      else if command.file.isSome then .error (.unexpectedArgument argument)
      else .ok { command with file := some argument } := by
  simp only [knownOptions, List.mem_cons, List.not_mem_nil, or_false, not_or] at h
  obtain ⟨h1, h2, h3, h4, h5, h6, h7⟩ := h
  unfold add
  split <;> first | contradiction | rfl

/-- Only the options and the files among the arguments count. -/
theorem taken_eq_of_known (h : ∀ option ∈ knownOptions, (option ∈ arguments' ↔ option ∈ arguments)) :
    taken arguments' = { taken arguments with file := (files arguments').head? } := by
  simp only [knownOptions, List.forall_mem_cons] at h
  obtain ⟨htokens, htree, hview, hstrict, hlegacy, hheader, hdebug, -⟩ := h
  simp only [taken, selected, htokens, htree, hview, hstrict, hlegacy, hheader, hdebug]

/-- A file that is the first one. -/
theorem taken_append_file (h : isOption argument = false) (hnone : files arguments = []) :
    taken (arguments ++ [argument]) = { taken arguments with file := some argument } := by
  have hfiles : files (arguments ++ [argument]) = [argument] := by
    rw [files_append, files_file h, hnone, List.nil_append]
  have hsame : ∀ option ∈ knownOptions,
      (option ∈ arguments ++ [argument] ↔ option ∈ arguments) := by
    intro option hoption
    have hne : option ≠ argument := by
      intro heq
      rw [← heq, isOption_of_known hoption] at h
      cases h
    simp [hne]
  rw [taken_eq_of_known hsame, hfiles]
  rfl

theorem acceptable_nil : Acceptable [] := ⟨by simp, by simp [files]⟩

/-- What the next argument may be. -/
theorem acceptable_append_iff :
    Acceptable (arguments ++ [argument]) ↔ Acceptable arguments ∧
      (isOption argument = true → argument ∈ knownOptions) ∧
      (isOption argument = false → files arguments = []) := by
  constructor
  · intro ⟨hknown, hsingle⟩
    rw [files_append, List.length_append] at hsingle
    refine ⟨⟨?_, by omega⟩, hknown argument (by simp), ?_⟩
    · intro option hoption
      exact hknown option (List.mem_append_left _ hoption)
    · intro hfile
      rw [files_file hfile, List.length_singleton] at hsingle
      exact List.length_eq_zero_iff.1 (by omega)
  · intro ⟨⟨hknown, hsingle⟩, hoption, hfile⟩
    refine ⟨?_, ?_⟩
    · intro option hmem
      rcases List.mem_append.1 hmem with hmem | hmem
      · exact hknown option hmem
      · rw [List.mem_singleton.1 hmem]
        exact hoption
    · rw [files_append]
      by_cases h : isOption argument = true
      · rw [files_option h, List.append_nil]
        exact hsingle
      · have hfile' : isOption argument = false := by simpa using h
        rw [hfile hfile', files_file hfile']
        simp

/-- One more argument is taken in iff it is an option that exists or the first file. -/
theorem add_eq_ok_iff :
    add (taken arguments) argument = .ok command ↔
      (isOption argument = true → argument ∈ knownOptions) ∧
      (isOption argument = false → files arguments = []) ∧
      command = taken (arguments ++ [argument]) := by
  by_cases hknown : argument ∈ knownOptions
  · have hoption := isOption_of_known hknown
    rw [add_of_known arguments hknown, Except.ok.injEq, eq_comm]
    simp [hknown, hoption]
  · rw [add_of_unknown _ hknown]
    by_cases hoption : isOption argument = true
    · simp [hoption, hknown]
    · have hfile : isOption argument = false := by simpa using hoption
      by_cases hnone : files arguments = []
      · have hfirst : (taken arguments).file.isSome = false := by simp [taken, hnone]
        rw [taken_append_file hfile hnone, eq_comm]
        simp [hfile, hfirst, hnone]
      · have hsecond : (taken arguments).file.isSome = true := by simp [taken, hnone]
        simp [hfile, hsecond, hnone]

/-- The arguments are taken in iff they can be followed, and what they ask for is said by what is
    among them. -/
theorem foldlM_add_eq_ok_iff :
    arguments.foldlM add start = .ok command ↔ Acceptable arguments ∧ command = taken arguments := by
  -- The induction is on the last argument: what has been asked for before it is known by then.
  induction arguments using List.reverseRecOn generalizing command with
  | nil =>
    constructor
    · intro h
      exact ⟨acceptable_nil, (Except.ok.inj h).symm⟩
    · intro ⟨_, h⟩
      rw [h]
      rfl
  | append_singleton arguments argument ih =>
    rw [List.foldlM_append, acceptable_append_iff]
    cases hbefore : arguments.foldlM add start with
    | error error =>
      have hnone : ¬Acceptable arguments := by
        intro hacceptable
        rw [ih.2 ⟨hacceptable, rfl⟩] at hbefore
        cases hbefore
      simp [bind, Except.bind, hnone]
    | ok before =>
      obtain ⟨hacceptable, rfl⟩ := ih.1 hbefore
      show (add (taken arguments) argument >>= pure) = _ ↔ _
      rw [bind_pure, add_eq_ok_iff]
      simp [hacceptable, and_assoc]

/-- What some arguments ask for, once the tree is asked for where nothing else is. -/
def asked (arguments : List String) : Command :=
  { taken arguments with tree := "--tree" ∈ arguments ∨ "--tokens" ∉ arguments ∧ "--view" ∉ arguments }

theorem ofArguments_eq_ok_iff :
    ofArguments arguments = .ok command ↔ Acceptable arguments ∧ command = asked arguments := by
  have hasked : asked arguments = { taken arguments with
      tree := (taken arguments).tree || (!(taken arguments).tokens && !(taken arguments).view) } := by
    simp [asked, taken]
  unfold ofArguments
  cases htaken : arguments.foldlM add start with
  | error error =>
    have hnone : ¬Acceptable arguments := by
      intro hacceptable
      rw [foldlM_add_eq_ok_iff.2 ⟨hacceptable, rfl⟩] at htaken
      cases htaken
    simp [bind, Except.bind, hnone]
  | ok before =>
    obtain ⟨hacceptable, rfl⟩ := foldlM_add_eq_ok_iff.1 htaken
    rw [hasked]
    simp only [bind, Except.bind, pure, Except.pure, Except.ok.injEq, hacceptable, true_and]
    exact eq_comm

theorem exists_ofArguments_iff :
    (∃ command, ofArguments arguments = .ok command) ↔ Acceptable arguments := by
  constructor
  · intro ⟨command, h⟩
    exact (ofArguments_eq_ok_iff.1 h).1
  · intro h
    exact ⟨_, ofArguments_eq_ok_iff.2 ⟨h, rfl⟩⟩

/-! ### Order and repetition -/

theorem Alike.acceptable {ignored : List String} (h : Alike ignored arguments arguments')
    (hignored : ∀ option ∈ ignored, option ∈ knownOptions) (hacceptable : Acceptable arguments) :
    Acceptable arguments' := by
  refine ⟨?_, h.files.length_eq ▸ hacceptable.single⟩
  intro argument hargument hoption
  by_cases hmem : argument ∈ ignored
  · exact hignored argument hmem
  · exact hacceptable.known argument ((h.options argument hoption hmem).1 hargument) hoption

/-- A file that is named is the only one. -/
theorem Acceptable.files_eq (h : Acceptable arguments) (hpath : path ∈ files arguments) :
    files arguments = [path] := by
  have hsingle := h.single
  cases hfiles : files arguments with
  | nil =>
    rw [hfiles] at hpath
    cases hpath
  | cons first rest =>
    rw [hfiles, List.length_cons] at hsingle
    obtain rfl : rest = [] := List.length_eq_zero_iff.1 (by omega)
    rw [hfiles] at hpath
    rw [List.mem_singleton.1 hpath]

/-- There is at most one file, so its place does not matter. -/
theorem Alike.files_eq {ignored : List String} (h : Alike ignored arguments arguments')
    (hacceptable : Acceptable arguments) : Command.files arguments' = Command.files arguments := by
  have hperm := h.files
  by_cases hnone : Command.files arguments = []
  · rw [hnone] at hperm ⊢
    exact hperm.eq_nil
  · obtain ⟨path, hpath⟩ := List.exists_mem_of_ne_nil _ hnone
    rw [hacceptable.files_eq hpath] at hperm ⊢
    exact List.perm_singleton.1 hperm

/-- The same options and the same file ask for the same, in any order and however often. -/
theorem ofArguments_congr (h : Alike [] arguments arguments')
    (hcommand : ofArguments arguments = .ok command) : ofArguments arguments' = .ok command := by
  obtain ⟨hacceptable, rfl⟩ := ofArguments_eq_ok_iff.1 hcommand
  have hknown : ∀ option ∈ knownOptions, (option ∈ arguments' ↔ option ∈ arguments) := by
    intro option hoption
    exact h.options option (isOption_of_known hoption) (by simp)
  have htaken : taken arguments' = taken arguments := by
    rw [taken_eq_of_known hknown, h.files_eq hacceptable]
    rfl
  refine ofArguments_eq_ok_iff.2 ⟨h.acceptable (by simp) hacceptable, ?_⟩
  simp only [asked, htaken, hknown _ (by decide : "--tree" ∈ knownOptions),
    hknown _ (by decide : "--tokens" ∈ knownOptions), hknown _ (by decide : "--view" ∈ knownOptions)]

end Command

/-! ### Compiling -/

theorem result_compile_eq (s : Session) :
    s.compile.result = (Reading.outcome readProgram s).map fun root =>
      ⟨root, (Reading.after readProgram s).diagnostics⟩ := by
  unfold Session.compile Reading.outcome Reading.after
  cases readProgram s <;> rfl

/-- Tracing is no part of what a program is compiled to. -/
theorem compile_debug (options : ReadOptions) (source : String) :
    compile { options with debug := false } source = compile options source := by
  rw [compile_eq, compile_eq]
  cases tokenize source with
  | error error => rfl
  | ok tokens =>
    have hruns := tracedRuns_muted (.ofTokens options tokens)
    show (Session.ofTokens { options with debug := false } tokens).compile.result =
      (Session.ofTokens options tokens).compile.result
    rw [result_compile_eq, result_compile_eq, ← muted_ofTokens, hruns.outcome, hruns.diagnostics]

/-- The exit code that tells how a compilation went. -/
def exitCodeOf : Except ParseError Compilation → Nat
  | .ok _ => 0
  | .error (.unsupported _ _) => 2
  | .error _ => 1

/-- The lines that list the tokens of a text, if it has any. -/
def listedTokens (source : String) : List String :=
  match tokenize source with
  | .ok tokens => tokenLines tokens
  | .error _ => []

/-- The lines that list the tree of a compilation, if there is one. -/
def listedTree : Except ParseError Compilation → List String
  | .ok compilation => [compilation.root.listing]
  | .error _ => []

theorem exitCodeOf_error (error : ParseError) : exitCodeOf (.error error) = error.exitCode := by
  cases error <;> rfl

/-- A text without tokens is not compiled. -/
theorem compile_of_tokenize_error {error : LexicalError} (options : ReadOptions)
    (h : tokenize source = .error error) : compile options source = .error (.lexical error) := by
  rw [compile_eq, h]

/-! ### Reports -/

/-- The text is read twice, once to list its tokens and once to compile it, and what is reported of
    the two agrees. -/
theorem report_eq (hview : command.view = false) (source : String) :
    (command.report source).code = exitCodeOf (compile command.options source) ∧
      (command.report source).output =
        (if command.tokens then listedTokens source else []) ++
          if command.tree then listedTree (compile command.options source) else [] := by
  have hcompiled (output errors : List String) (outcome : Except ParseError Compilation) :
      (command.reportCompilation output errors outcome).code = exitCodeOf outcome ∧
        (command.reportCompilation output errors outcome).output =
          output ++ if command.tree then listedTree outcome else [] := by
    cases outcome with
    | ok compilation => exact ⟨rfl, rfl⟩
    | error error => simp [Command.reportCompilation, exitCodeOf_error, listedTree]
  unfold Command.report
  by_cases htokens : command.tokens = true
  · simp only [htokens, if_true]
    cases hlisted : (tokenizeLogged source).result with
    | error error =>
      -- The run ends before anything is compiled, with the error that compiling would have had.
      have hnone : tokenize source = .error error := hlisted
      simp [compile_of_tokenize_error _ hnone, listedTokens, hnone, exitCodeOf, listedTree]
    | ok tokens =>
      have hsome : tokenize source = .ok tokens := hlisted
      simp only [hview, Bool.false_eq_true, if_false, listedTokens, hsome]
      exact hcompiled (tokenLines tokens) _ _
  · simp only [htokens, hview, Bool.false_eq_true, if_false]
    exact hcompiled [] _ _

/-- The file of some arguments is the one that they name. -/
theorem file_asked (hacceptable : Command.Acceptable arguments) (hpath : path ∈ arguments)
    (hfile : Command.isOption path = false) : (Command.asked arguments).file = some path := by
  have hmem := Command.mem_files hpath hfile
  show (Command.files arguments).head? = some path
  rw [hacceptable.files_eq hmem]
  rfl

/-- What a run on a file comes to. -/
theorem run_of_acceptable (program : String) (lookup : String → FileContent)
    (hversion : "--version" ∉ arguments) (hview : "--view" ∉ arguments) (hpath : path ∈ arguments)
    (hfile : Command.isOption path = false) (htext : lookup path = .text source)
    (hacceptable : Command.Acceptable arguments) :
    (runArguments program arguments lookup).code =
        exitCodeOf (compile (Command.selected arguments) source) ∧
      (runArguments program arguments lookup).output =
        (if "--tokens" ∈ arguments then listedTokens source else []) ++
          if "--tree" ∈ arguments ∨ "--tokens" ∉ arguments then
            listedTree (compile (Command.selected arguments) source)
          else [] := by
  have hcommand := Command.ofArguments_eq_ok_iff.2 ⟨hacceptable, rfl⟩
  have hrun : runArguments program arguments lookup = (Command.asked arguments).report source := by
    have hnone : arguments.contains "--version" = false := by simpa using hversion
    simp only [runArguments, hnone, Bool.false_eq_true, if_false, hcommand, Command.run,
      file_asked hacceptable hpath hfile, htext]
  have hclosed : (Command.asked arguments).view = false := by simp [Command.asked, Command.taken, hview]
  obtain ⟨hcode, houtput⟩ := report_eq hclosed source
  rw [hrun]
  refine ⟨hcode, ?_⟩
  rw [houtput]
  simp [Command.asked, Command.taken, hview]

/-- Options that say what is printed do not change what a program is compiled to. -/
theorem compile_selected_congr (h : Command.Alike Command.outputOptions arguments arguments')
    (source : String) :
    compile (Command.selected arguments') source = compile (Command.selected arguments) source := by
  have hsame : ∀ option ∈ ["--legacy-precedence", "--strict", "--require-header"],
      (option ∈ arguments' ↔ option ∈ arguments) := by
    intro option hoption
    have hknown : ∀ option ∈ ["--legacy-precedence", "--strict", "--require-header"],
        Command.isOption option = true ∧ option ∉ Command.outputOptions := by decide
    exact h.options option (hknown option hoption).1 (hknown option hoption).2
  simp only [List.forall_mem_cons] at hsame
  obtain ⟨hlegacy, hstrict, hheader, -⟩ := hsame
  rw [← compile_debug (Command.selected arguments'), ← compile_debug (Command.selected arguments)]
  simp only [Command.selected, hlegacy, hstrict, hheader]

/-! ### Main result -/

/-- Arguments that name a file, and ask neither for the viewer nor for the version, can be followed iff
    all their options exist and the file is the only one.  Then neither the order of the arguments nor a
    repetition of options matters; the exit code says how the program of the file is compiled, whatever
    is printed; and the output is the list of tokens, if it is asked for and there are tokens, and then
    the tree, if it is asked for or the tokens are not, and there is one. -/
theorem runArguments_outcome (program : String) (lookup : String → FileContent)
    (hversion : "--version" ∉ arguments) (hview : "--view" ∉ arguments) (hpath : path ∈ arguments)
    (hfile : Command.isOption path = false) (htext : lookup path = .text source) :
    ((∃ command, Command.ofArguments arguments = .ok command) ↔
        (∀ argument ∈ arguments, Command.isOption argument = true → argument ∈ Command.knownOptions) ∧
          (Command.files arguments).length ≤ 1) ∧
      ∀ command, Command.ofArguments arguments = .ok command →
        (∀ arguments', Command.Alike [] arguments arguments' →
          Command.ofArguments arguments' = .ok command) ∧
        (runArguments program arguments lookup).code =
          exitCodeOf (compile (Command.selected arguments) source) ∧
        (∀ arguments', Command.Alike Command.outputOptions arguments arguments' →
          (runArguments program arguments' lookup).code =
            (runArguments program arguments lookup).code) ∧
        (runArguments program arguments lookup).output =
          (if "--tokens" ∈ arguments then listedTokens source else []) ++
            if "--tree" ∈ arguments ∨ "--tokens" ∉ arguments then
              listedTree (compile (Command.selected arguments) source)
            else [] := by
  refine ⟨?_, fun command hcommand => ?_⟩
  · rw [Command.exists_ofArguments_iff]
    exact ⟨fun h => ⟨h.known, h.single⟩, fun ⟨hknown, hsingle⟩ => ⟨hknown, hsingle⟩⟩
  · -- All that is said of the run depends on the arguments by what is among them.
    have hacceptable := Command.exists_ofArguments_iff.1 ⟨command, hcommand⟩
    obtain ⟨hcode, houtput⟩ :=
      run_of_acceptable program lookup hversion hview hpath hfile htext hacceptable
    refine ⟨fun arguments' h => Command.ofArguments_congr h hcommand, hcode, ?_, houtput⟩
    -- The options for the output are not among those that a program is read under.
    intro arguments' h
    have hversion' : "--version" ∉ arguments' := by
      rwa [h.options _ (by decide) (by decide)]
    have hview' : "--view" ∉ arguments' := by
      rwa [h.options _ (by decide) (by decide)]
    have hpath' : path ∈ arguments' := by
      have hmem := Command.mem_files hpath hfile
      exact (List.mem_filter.1 (h.files.mem_iff.2 hmem)).1
    have hacceptable' := h.acceptable (by decide) hacceptable
    obtain ⟨hcode', -⟩ :=
      run_of_acceptable program lookup hversion' hview' hpath' hfile htext hacceptable'
    rw [hcode', hcode, compile_selected_congr h]

/-- A call has tokens to list, but it is not compiled, and its trace is asked for twice. -/
theorem runArguments_outcome_call :
    "--version" ∉ ["--debug", "a.ty", "--tokens", "--debug"] ∧
      "--view" ∉ ["--debug", "a.ty", "--tokens", "--debug"] ∧
      "a.ty" ∈ ["--debug", "a.ty", "--tokens", "--debug"] ∧ Command.isOption "a.ty" = false ∧
      Command.ofArguments ["a.ty", "--debug", "--tokens"] =
        .ok ⟨some "a.ty", true, false, false, { ReadOptions.default with debug := true }⟩ ∧
      (runArguments "tython" ["--debug", "a.ty", "--tokens", "--debug"]
        fun _ => .text "CALL A").code = 2 ∧
      (runArguments "tython" ["--debug", "a.ty", "--tokens", "--debug"]
        fun _ => .text "CALL A").output = ["   1  CALL", "   1  VAR:A", "   1  EOF"] := by
  have hversion : "--version" ∉ ["--debug", "a.ty", "--tokens", "--debug"] := by decide
  have hview : "--view" ∉ ["--debug", "a.ty", "--tokens", "--debug"] := by decide
  have hpath : "a.ty" ∈ ["--debug", "a.ty", "--tokens", "--debug"] := by decide
  have hfile : Command.isOption "a.ty" = false := by decide
  have hcommand : Command.ofArguments ["--debug", "a.ty", "--tokens", "--debug"] =
      .ok ⟨some "a.ty", true, false, false, { ReadOptions.default with debug := true }⟩ := by rfl
  obtain ⟨-, hall⟩ := runArguments_outcome "tython" (fun _ => .text "CALL A") hversion hview hpath
    hfile rfl
  obtain ⟨horder, hcode, -, houtput⟩ := hall _ hcommand
  have halike : Command.Alike [] ["--debug", "a.ty", "--tokens", "--debug"]
      ["a.ty", "--debug", "--tokens"] := by
    refine ⟨fun option _ _ => ?_, .refl _⟩
    simp only [List.mem_cons, List.not_mem_nil, or_false]
    tauto
  exact ⟨hversion, hview, hpath, hfile, horder _ halike, hcode, houtput⟩

end CalcLang
