import CalcLang.Proofs.Scan.Placement
import CalcLang.Proofs.Scan.Spelling
import Mathlib

/-! # Printing and reading again

    Tokens are printed with one blank between the tokens of a line, so each of them is one word
    again.  Only the lines may change: the first token is moved up to the first line, and the end of
    the program to the line of its last word.

    * `scan_printFrom`: the words and line breaks of a text are read back from their print.
    * `reprinted`: the tokens of a program, moved up.
    * `tokenize_printTokens`: what is read back from the print of a program. -/

namespace CalcLang

variable {line : Nat} {fresh : Bool} {token : Token} {tokens body : List Token} {source : String}

/-! ### Printed texts -/

theorem printFrom_word (hword : token.kind.isWord = true) (fresh : Bool) (rest : List Token) :
    printFrom fresh (token :: rest) =
      (if fresh then [] else [' ']) ++ token.sourceText.toList ++ printFrom false rest := by
  rw [printFrom]
  split
  · next h =>
    rw [h] at hword
    cases hword
  · next h =>
    rw [h] at hword
    cases hword
  · rfl

/-- Behind a word, the print goes on with a blank or with a line break. -/
theorem startsApart_printFrom (tokens : List Token) : StartsApart (printFrom false tokens) := by
  cases tokens with
  | nil => nofun
  | cons token rest =>
    rw [printFrom]
    intro c hc
    split at hc
    · cases hc
    · cases hc
      exact .inr rfl
    · cases hc
      exact .inl rfl

/-- Nothing is printed for the end of a program. -/
theorem printFrom_append_endOfFile (fresh : Bool) (tokens : List Token) (line : Nat) :
    printFrom fresh (tokens ++ [Token.endOfFile line]) = printFrom fresh tokens := by
  induction tokens generalizing fresh with
  | nil => rfl
  | cons token rest ih => rw [List.cons_append, printFrom, printFrom, ih, ih]

theorem printTokens_append_endOfFile (body : List Token) (line : Nat) :
    printTokens (body ++ [Token.endOfFile line]) = String.ofList (printFrom true body) := by
  rw [printTokens, printFrom_append_endOfFile]

/-- The words and line breaks of a text are read back from their print. -/
theorem scan_printFrom (fresh : Bool) (hstand : StandOn line tokens)
    (hwritten : ∀ t ∈ tokens, t = .lineBreak t.line ∨ t.IsReadable) :
    (scan (.code []) line (printFrom fresh tokens)).result = .ok tokens := by
  induction tokens generalizing fresh line with
  | nil => rfl
  | cons token rest ih =>
    obtain ⟨rfl, hstand⟩ := hstand
    have hrest : ∀ t ∈ rest, t = .lineBreak t.line ∨ t.IsReadable := by
      intro t ht
      exact hwritten t (List.mem_cons_of_mem _ ht)
    rcases hwritten token List.mem_cons_self with hbreak | hreadable
    · -- A line break is printed as one, and what follows starts on the next line.
      have hlater := ih true hstand hrest
      generalize token.line = line at hbreak hlater
      subst hbreak
      show (scan (.code []) line ('\n' :: printFrom true rest)).result = _
      rw [scan_cons]
      exact Logged.result_bind_eq_ok.2 ⟨[], rfl, Logged.result_bind_eq_ok.2 ⟨rest, hlater, rfl⟩⟩
    · -- The blank before a word completes nothing, and the word is cut off behind it.
      have hword := Word.isWord_of_kind? hreadable.kind
      rw [isLineBreak_of_isWord hword] at hstand
      have hlater := ih false hstand hrest
      have hblank (text : List Char) :
          scan (.code []) token.line ((if fresh then [] else [' ']) ++ text) =
            scan (.code []) token.line text := by
        cases fresh with
        | true => rfl
        | false =>
          show scan (.code []) token.line (' ' :: text) = _
          have hstep : (ScanMode.code []).step ' ' = ([[]], .code []) := rfl
          rw [scan_cons, hstep]
          simp [flushAll, flush, breakOf]
      rw [printFrom_word hword, List.append_assoc, hblank,
        scan_spelling hreadable.spelling (startsApart_printFrom rest)]
      exact Logged.result_bind_eq_ok.2
        ⟨[token], hreadable.flush, Logged.result_bind_eq_ok.2 ⟨rest, hlater, rfl⟩⟩

/-! ### Programs -/

/-- The line of the first of some tokens. -/
def firstLine (tokens : List Token) : Nat :=
  (tokens.head?.map Token.line).getD 1

/-- The line on which some words end, the first line if there are none. -/
def endOfWords (tokens : List Token) : Nat :=
  (tokens.getLast?.map Token.line).getD 1

/-- The tokens of a program moved up: the first one to the first line, and the end of the program to
    the line of its last word. -/
def reprinted (tokens : List Token) : List Token :=
  let body := tokens.dropLast.map (Token.relined (· - (firstLine tokens - 1)))
  body ++ [Token.endOfFile (endOfWords body)]

/-- The tokens of a program start on the first line, and the program ends on the line of its last
    word.  If there are no words, it ends on the first line. -/
def IsTight (tokens : List Token) : Prop :=
  firstLine tokens = 1 ∧ tokens.getLast?.map Token.line = some (endOfWords tokens.dropLast)

theorem reprinted_append (body : List Token) (last : Nat) :
    reprinted (body ++ [Token.endOfFile last]) =
      body.map (Token.relined (· - (firstLine (body ++ [Token.endOfFile last]) - 1))) ++
        [Token.endOfFile (endOfWords
          (body.map (Token.relined (· - (firstLine (body ++ [Token.endOfFile last]) - 1)))))] := by
  unfold reprinted
  rw [List.dropLast_concat]

theorem isTight_append (body : List Token) (last : Nat) :
    IsTight (body ++ [Token.endOfFile last]) ↔
      firstLine (body ++ [Token.endOfFile last]) = 1 ∧ last = endOfWords body := by
  unfold IsTight
  rw [List.dropLast_concat, List.getLast?_concat, Option.map_some, Option.some_inj]
  rfl

/-- Moving up leaves the tokens as they are iff there is nothing to move. -/
theorem reprinted_eq_iff {last : Nat} (hfirst : 1 ≤ firstLine (body ++ [Token.endOfFile last])) :
    reprinted (body ++ [Token.endOfFile last]) = body ++ [Token.endOfFile last] ↔
      IsTight (body ++ [Token.endOfFile last]) := by
  rw [reprinted_append, isTight_append]
  constructor
  · intro h
    have hbody := List.append_inj_left' h rfl
    have hending := List.singleton_inj.1 (List.append_inj_right' h rfl)
    rw [hbody] at hending
    have hlast : last = endOfWords body := (congrArg Token.line hending).symm
    refine ⟨?_, hlast⟩
    cases body with
    | nil => exact hlast
    | cons head rest =>
      -- The first token is moved to the first line, and stays where it is.
      have hhead := congrArg Token.line (List.cons_eq_cons.1 hbody).1
      have hmoved : head.line - (head.line - 1) = head.line := hhead
      have hline : firstLine (head :: rest ++ [Token.endOfFile last]) = head.line := rfl
      omega
  · intro h
    obtain ⟨hone, hlast⟩ := h
    have hsame : Token.relined (· - (1 - 1)) = id := rfl
    rw [hone, hsame, List.map_id, ← hlast]

/-- What moving up does to the lines. -/
theorem StandOn.reprinted {first : Nat} (h : StandOn first body) (hfirst : 1 ≤ first) :
    StandOn 1 (body.map (Token.relined (· - (first - 1)))) := by
  apply h.relined
  intro i hi
  omega

theorem IsTrimmed.relined (f : Nat → Nat) (h : IsTrimmed body) :
    IsTrimmed (body.map (Token.relined f)) where
  first := by
    intro t ht
    rw [List.head?_map] at ht
    obtain ⟨t', ht', rfl⟩ := Option.map_eq_some_iff.1 ht
    exact h.first t' ht'
  last := by
    intro t ht
    rw [List.getLast?_map] at ht
    obtain ⟨t', ht', rfl⟩ := Option.map_eq_some_iff.1 ht
    exact h.last t' ht'

theorem StandOn.endOfWords_eq (h : StandOn 1 body) (htrimmed : IsTrimmed body) :
    endOfWords body = 1 + breakCount body := by
  unfold endOfWords
  cases hlast : body.getLast? with
  | none =>
    rw [List.getLast?_eq_none_iff.1 hlast]
    rfl
  | some last => exact h.line_last hlast (htrimmed.last last hlast)

/-- A row of tokens on other lines is written in the same way. -/
theorem written_relined (f : Nat → Nat) (h : ∀ t ∈ body, t = .lineBreak t.line ∨ t.IsReadable) :
    ∀ t ∈ body.map (Token.relined f), t = .lineBreak t.line ∨ t.IsReadable := by
  intro t ht
  obtain ⟨t', ht', rfl⟩ := List.mem_map.1 ht
  rcases h t' ht' with hbreak | hreadable
  · left
    rw [hbreak]
    rfl
  · exact .inr ⟨hreadable.spelling, hreadable.kind, hreadable.value⟩

/-- Tokens that stand on the first line and behind are read back from their print. -/
theorem tokenize_print (hstand : StandOn 1 body) (htrimmed : IsTrimmed body)
    (hwritten : ∀ t ∈ body, t = .lineBreak t.line ∨ t.IsReadable) :
    tokenize (String.ofList (printFrom true body)) =
      .ok (body ++ [Token.endOfFile (endOfWords body)]) := by
  have hscan := scan_printFrom true hstand hwritten
  obtain ⟨-, hcount⟩ := standOn_of_scan hscan
  have htrim : trimLineBreaks body = body := by
    have h : trimLineBreaks ([] ++ (body ++ [])) = body :=
      trimLineBreaks_of_isTrimmed nofun htrimmed nofun
    rw [List.append_nil, List.nil_append] at h
    exact h
  rw [tokenize_eq_ok_iff, String.toList_ofList]
  refine ⟨body, hscan, ?_⟩
  rw [htrim, hstand.endOfWords_eq htrimmed, lastLine, hcount]

/-- The tokens of a program stand on the line of the first one and behind. -/
theorem exists_standOn_firstLine (h : tokenize source = .ok tokens) :
    ∃ body, tokens = body ++ [Token.endOfFile (lastLine source.toList)] ∧ IsTrimmed body ∧
      StandOn (firstLine tokens) body ∧ 1 ≤ firstLine tokens ∧
      firstLine tokens + breakCount body ≤ lastLine source.toList := by
  obtain ⟨body, first, rfl, htrimmed, -, hstand, hone, hlast⟩ := exists_body_of_tokenize h
  refine ⟨body, rfl, htrimmed, ?_⟩
  cases body with
  | nil =>
    -- The end of the program is the first token.
    refine ⟨trivial, ?_, Nat.le_refl _⟩
    show 1 ≤ lastLine source.toList
    omega
  | cons head rest =>
    have hline : firstLine (head :: rest ++ [Token.endOfFile (lastLine source.toList)]) = first :=
      hstand.1
    rw [hline]
    exact ⟨hstand, hone, hlast⟩

/-- The first token is the one furthest up. -/
theorem firstLine_le (h : tokenize source = .ok tokens) :
    ∀ t ∈ tokens, 1 ≤ firstLine tokens ∧ firstLine tokens ≤ t.line := by
  obtain ⟨body, hbody, -, hstand, hone, hlast⟩ := exists_standOn_firstLine h
  intro t ht
  refine ⟨hone, ?_⟩
  rw [hbody] at ht
  rcases List.mem_append.1 ht with ht | ht
  · exact (hstand.line_mem t ht).1
  · rw [List.mem_singleton.1 ht]
    show firstLine tokens ≤ lastLine source.toList
    omega

/-- The tokens that are moved up are printed in the same way. -/
theorem printTokens_reprinted (h : tokenize source = .ok tokens) :
    printTokens (reprinted tokens) = printTokens tokens := by
  obtain ⟨body, hbody, -⟩ := exists_standOn_firstLine h
  rw [hbody, reprinted_append, printTokens_append_endOfFile, printTokens_append_endOfFile,
    printFrom_relined]

/-- The print of a program is read as its tokens, moved up to the first line. -/
theorem tokenize_printTokens_eq (h : tokenize source = .ok tokens) :
    tokenize (printTokens tokens) = .ok (reprinted tokens) := by
  obtain ⟨body, hbody, htrimmed, hstand, hone, -⟩ := exists_standOn_firstLine h
  have hwritten : ∀ t ∈ body, t = .lineBreak t.line ∨ t.IsReadable :=
    isReadable_of_tokenize (hbody ▸ h)
  -- The print is also that of the moved tokens, which stand where they are read.
  rw [← printTokens_reprinted h, hbody, reprinted_append, printTokens_append_endOfFile, ← hbody]
  exact tokenize_print (hstand.reprinted hone) (htrimmed.relined _) (written_relined _ hwritten)

/-- The print of a program is read as its tokens, moved up to the first line.  They are the same
    tokens iff there was nothing to move, and they are printed in the same way. -/
theorem tokenize_printTokens (source : String) (tokens : List Token)
    (h : tokenize source = .ok tokens) :
    tokenize (printTokens tokens) = .ok (reprinted tokens) ∧
      (∀ t ∈ tokens, 1 ≤ firstLine tokens ∧ firstLine tokens ≤ t.line) ∧
      (reprinted tokens = tokens ↔ IsTight tokens) ∧
      printTokens (reprinted tokens) = printTokens tokens := by
  refine ⟨tokenize_printTokens_eq h, firstLine_le h, ?_, printTokens_reprinted h⟩
  obtain ⟨body, hbody, -, -, hone, -⟩ := exists_standOn_firstLine h
  rw [hbody] at hone ⊢
  exact reprinted_eq_iff hone

/-- A program that starts on its second line, with a keyword in its longer spelling, two blanks and
    a string that holds a comment mark. -/
theorem tokenize_printTokens_moved :
    let tokens : List Token := [⟨.keyword .label, none, 2⟩, ⟨.var .scalar, some "a", 2⟩,
      ⟨.lineBreak, none, 2⟩, ⟨.keyword .disp, none, 3⟩, ⟨.literal .string, some "\"# (\"", 3⟩,
      ⟨.endOfFile, none, 4⟩]
    tokenize "\n label  a # x\nDISP\"# (\"\n" = .ok tokens ∧
      tokenize "LBL a\nDISP \"# (\"" = .ok (reprinted tokens) ∧ reprinted tokens ≠ tokens := by
  intro tokens
  have h : tokenize "\n label  a # x\nDISP\"# (\"\n" = .ok tokens := by
    cbv
  have hprint : printTokens tokens = "LBL a\nDISP \"# (\"" := by
    decide
  obtain ⟨hread, -, hsame, -⟩ := tokenize_printTokens _ tokens h
  rw [hprint] at hread
  refine ⟨h, hread, ?_⟩
  intro hmoved
  exact absurd (hsame.1 hmoved).1 (by decide)

end CalcLang
