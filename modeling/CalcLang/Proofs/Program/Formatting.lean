import CalcLang.Proofs.Program.Compilation
import CalcLang.Proofs.Program.Relining
import CalcLang.Proofs.Scan.RoundTrip

/-! # Formatting a program

    A program may be replaced by the print of its tokens:

    * `compile_of_tokens_relined`: a text whose tokens are those of a program on other lines.
    * `MovedUp`: one outcome is the other one on lines further up.
    * `compile_printTokens`: this is so for the outcome of a print and that of the program. -/

namespace CalcLang

variable {options : ReadOptions} {source printed : String} {tokens body : List Token}
  {compilation : Compilation} {f g : Nat → Nat}

/-! ### Texts with the same tokens on other lines -/

/-- Where the tokens and the end of a text are put, there its outcome is. -/
theorem compile_of_tokens_relined {last : Nat}
    (hsource : tokenize source = .ok (body ++ [Token.endOfFile last]))
    (hprinted : tokenize printed = .ok (body.map (Token.relined f) ++ [Token.endOfFile (f last)])) :
    compile options printed = relinedOutcome f (compile options source) := by
  rw [compile_eq, compile_eq, hsource, hprinted]
  simp only [ofTokens_append_endOfFile]
  exact compile_relined f options body last

/-- A title is one on any line. -/
theorem hasTitle_relined (f : Nat → Nat) (last : Nat)
    (h : Session.HasTitle ⟨options, [], body.map (Token.relined f), f last, [], []⟩) :
    Session.HasTitle ⟨options, [], body, last, [], []⟩ := by
  intro hask
  rw [(sessions_relined f options body last).startsWithTitle]
  exact h hask

/-- A program is compiled if the other text is.  The line on which a program ends does not matter
    then, so it is enough to know how the other tokens are put back. -/
theorem compile_of_tokens_back
    (hsource : tokenize source = .ok (body ++ [Token.endOfFile (lastLine source.toList)]))
    (hprinted : tokenize printed = .ok (body.map (Token.relined f) ++
      [Token.endOfFile (f (lastLine source.toList))]))
    (hback : (body.map (Token.relined f)).map (Token.relined g) = body)
    (h : compile options printed = .ok compilation) :
    compile options source = .ok (compilation.relined g) := by
  obtain ⟨body', skipped, statements, hcompiled, rfl⟩ := compile_eq_ok_iff.1 h
  have htokens := Except.ok.inj (hcompiled.tokens.symm.trans hprinted)
  obtain rfl := List.append_inj_left' htokens rfl
  have hlast : lastLine printed.toList = f (lastLine source.toList) :=
    congrArg Token.line (List.singleton_inj.1 (List.append_inj_right' htokens rfl))
  obtain ⟨skipped', hblock, hnotes⟩ := hcompiled.block.relined g
  rw [hback] at hblock
  have htitle := hcompiled.title
  rw [hlast] at htitle
  rw [compile_eq_ok_iff]
  refine ⟨body, skipped', _, ⟨hsource, hasTitle_relined f _ htitle, hblock⟩, ?_⟩
  unfold Compilation.relined
  rw [programTree_relined, hnotes]

/-! ### Moving up -/

/-- Where a line is after moving up by some lines, if there is none behind the last one. -/
def lineAbove (lines last line : Nat) : Nat := min (line - lines) last

/-- Lines that have been moved up can be moved back. -/
theorem map_relined_lineAbove {lines last : Nat}
    (h : ∀ t ∈ body, lines ≤ t.line ∧ t.line ≤ lines + last) :
    (body.map (Token.relined (lineAbove lines last))).map (Token.relined (· + lines)) = body := by
  have hsame : body.map (Token.relined fun line => lineAbove lines last line + lines) =
      body.map (Token.relined id) := by
    apply map_relined_congr
    intro t ht
    have hline := h t ht
    show min (t.line - lines) last + lines = t.line
    omega
  rw [List.map_map]
  exact hsame.trans (List.map_id _)

/-- The print of a program has its tokens, moved up.  Its end may be moved by more lines, up to its
    last word. -/
theorem exists_tokens_of_print (h : tokenize source = .ok tokens) :
    ∃ body, tokenize source = .ok (body ++ [Token.endOfFile (lastLine source.toList)]) ∧
      let f := lineAbove (firstLine tokens - 1) (endOfWords (reprinted tokens).dropLast)
      tokenize (printTokens tokens) =
        .ok (body.map (Token.relined f) ++ [Token.endOfFile (f (lastLine source.toList))]) ∧
      (body.map (Token.relined f)).map (Token.relined (· + (firstLine tokens - 1))) = body := by
  obtain ⟨body, hbody, htrimmed, hstand, hone, hlast⟩ := exists_standOn_firstLine h
  have hend := (hstand.reprinted hone).endOfWords_eq (htrimmed.relined _)
  rw [breakCount_relined] at hend
  have hreprinted : reprinted tokens = body.map (Token.relined (· - (firstLine tokens - 1))) ++
      [Token.endOfFile (1 + breakCount body)] := by
    rw [← hend]
    conv_lhs => rw [hbody, reprinted_append, ← hbody]
  have hlines := hstand.line_mem
  refine ⟨body, hbody ▸ h, ?_⟩
  rw [tokenize_printTokens_eq h, hreprinted, List.dropLast_concat, hend]
  -- Only the end of the program may be behind the last line of the print.
  refine ⟨?_, map_relined_lineAbove ?_⟩
  · have hwords : body.map (Token.relined (· - (firstLine tokens - 1))) =
        body.map (Token.relined (lineAbove (firstLine tokens - 1) (1 + breakCount body))) := by
      apply map_relined_congr
      intro t ht
      have hline := hlines t ht
      unfold lineAbove
      omega
    have hfinal : lineAbove (firstLine tokens - 1) (1 + breakCount body)
        (lastLine source.toList) = 1 + breakCount body := by
      unfold lineAbove
      omega
    rw [hwords, hfinal]
  · intro t ht
    have hline := hlines t ht
    omega

/-! ### Main result -/

/-- What comes of a program, and the same further up by some lines.  An error that is pinned to the
    end of the program is then on the line of its last word. -/
inductive MovedUp (lines last : Nat) :
    Except ParseError Compilation → Except ParseError Compilation → Prop where
  | ok (compilation : Compilation) :
    MovedUp lines last (.ok (compilation.relined (· + lines))) (.ok compilation)
  | error (error : ParseError) :
    MovedUp lines last (.error error) (.error (error.relined (lineAbove lines last)))

/-- The print of a program is compiled like the program.  If the program starts further down than on
    the first line, then its trees and its notes are further down than those of the print, by as
    many lines.  An error is the same on another line. -/
theorem compile_printTokens (options : ReadOptions) (source : String) (tokens : List Token)
    (h : tokenize source = .ok tokens) :
    MovedUp (firstLine tokens - 1) (endOfWords (reprinted tokens).dropLast)
      (compile options source) (compile options (printTokens tokens)) := by
  obtain ⟨body, hsource, hprinted, hback⟩ := exists_tokens_of_print h
  have houtcome : compile options (printTokens tokens) =
      relinedOutcome _ (compile options source) :=
    compile_of_tokens_relined hsource hprinted
  cases hcompile : compile options source with
  | error e =>
    rw [houtcome, hcompile]
    exact .error e
  | ok compilation =>
    -- Both are compiled, and the tree of the print is put back on the lines of the program.
    rw [hcompile] at houtcome
    rw [← hcompile, compile_of_tokens_back hsource hprinted hback houtcome, houtcome]
    exact .ok _

/-- A program that starts on its second line and is not finished.  What is missing is missed at the
    end of the program, two lines below the last word, and in the print on the line of that word. -/
theorem compile_printTokens_unfinished :
    let tokens : List Token := [⟨.keyword .label, none, 2⟩, ⟨.var .scalar, some "a", 2⟩,
      ⟨.lineBreak, none, 2⟩, ⟨.keyword .disp, none, 3⟩, ⟨.endOfFile, none, 5⟩]
    tokenize "\n label  a # x\nDISP\n\n" = .ok tokens ∧
      MovedUp 1 2 (compile .default "\n label  a # x\nDISP\n\n")
        (compile .default "LBL a\nDISP") ∧
      compile .default "LBL a\nDISP" = .error (.grammar .expectedOutput (some "EOF") (some 2)) := by
  intro tokens
  have h : tokenize "\n label  a # x\nDISP\n\n" = .ok tokens := by
    cbv
  have hprint : printTokens tokens = "LBL a\nDISP" := by
    decide
  have hmoved := compile_printTokens .default _ tokens h
  rw [hprint] at hmoved
  refine ⟨h, hmoved, ?_⟩
  cbv

end CalcLang
