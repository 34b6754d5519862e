import CalcLang.Proofs.Scan.Placement
import Mathlib.Data.List.Forall2

/-! # Reading line by line

    A text may be cut into words one physical line at a time, each line as a text of its own.  No
    string and no comment reaches into the next line, and no word does.

    * `linesInduction`: a text is one line, or a line and the text behind its line break.
    * `joinLines`: the tokens of lines, put together again with a line break behind each but the last.
    * `ByLines`: what comes of a text, said by what comes of its lines.
    * `tokenize_splitOn`: it comes of the text.
-/

namespace CalcLang

variable {line : Nat} {text : List Char} {source : String}

/-! ### Texts and their lines -/

/-- Induction on the physical lines of a text. -/
theorem linesInduction {P : List Char → Prop} (last : ∀ text, '\n' ∉ text → P text)
    (more : ∀ first rest, '\n' ∉ first → P rest → P (first ++ '\n' :: rest)) (text : List Char) :
    P text := by
  -- The induction is on the length: what is behind the first line break is shorter.
  induction hlength : text.length using Nat.strong_induction_on generalizing text with
  | _ length ih =>
    by_cases hbreak : '\n' ∈ text
    · obtain ⟨first, rest, hsplit, hfirst⟩ := List.eq_append_cons_of_mem hbreak
      have hshorter : rest.length < length := by
        rw [← hlength, hsplit, List.length_append, List.length_cons]
        omega
      rw [hsplit]
      exact more first rest hfirst (ih rest.length hshorter rest rfl)
    · exact last text hbreak

theorem splitOn_of_notMem (h : '\n' ∉ text) : text.splitOn '\n' = [text] := by
  rw [List.splitOn_eq_splitOnP]
  apply List.splitOnP_eq_singleton
  intro c hc
  rw [beq_eq_false_iff_ne]
  intro hbreak
  exact h (hbreak ▸ hc)

theorem splitOn_append_break {first : List Char} (h : '\n' ∉ first) (rest : List Char) :
    (first ++ '\n' :: rest).splitOn '\n' = first :: rest.splitOn '\n' := by
  rw [List.splitOn_eq_splitOnP, List.splitOn_eq_splitOnP]
  apply List.splitOnP_append_cons_of_forall_mem
  · intro c hc
    rw [beq_eq_false_iff_ne]
    intro hbreak
    exact h (hbreak ▸ hc)
  · rfl

theorem splitOn_ne_nil (text : List Char) : text.splitOn '\n' ≠ [] := by
  rw [List.splitOn_eq_splitOnP]
  exact List.splitOnP_ne_nil _ _

/-- A text has one line more than it has line breaks. -/
theorem length_splitOn (text : List Char) : (text.splitOn '\n').length = lastLine text := by
  unfold lastLine
  induction text using linesInduction with
  | last text hbreak =>
    rw [splitOn_of_notMem hbreak, List.count_eq_zero.2 hbreak]
    rfl
  | more first rest hfirst ih =>
    rw [splitOn_append_break hfirst, List.length_cons, ih, List.count_append,
      List.count_eq_zero.2 hfirst, count_cons_break, if_pos rfl]
    omega

/-! ### Single lines -/

/-- A line is cut into the same words wherever it stands. -/
theorem scan_line (h : '\n' ∉ text) (line : Nat) : (scan (.code []) line text).result =
    relinedTokens (fun _ => line) (scan (.code []) 1 text).result := by
  have hcount : text.count '\n' = 0 := List.count_eq_zero.2 h
  have hhere := scan_relined (.code []) 0 line text
  have hone := scan_relined (.code []) 0 1 text
  rw [Nat.zero_add] at hhere hone
  rw [hhere, hone]
  -- On line zero all the tokens stand on line zero, and so does the error.
  cases hscan : (scan (.code []) 0 text).result with
  | error e =>
    have hline := Logged.FailsWith.mono (failsWith_scan (.code []) 0 text) (Q := (·.line = 0))
      (by intro error herror; omega) e hscan
    show Except.error { e with line := e.line + line } = Except.error { e with line := line }
    rw [hline, Nat.zero_add]
  | ok tokens =>
    obtain ⟨hstand, hbreaks⟩ := standOn_of_scan hscan
    have hline : ∀ t ∈ tokens, t.line = 0 := by
      intro t ht
      have hbounds := hstand.line_mem t ht
      omega
    show Except.ok (tokens.map _) = Except.ok ((tokens.map _).map _)
    rw [List.map_map]
    refine congrArg Except.ok (map_relined_congr (g := fun _ => line) ?_)
    intro t ht
    rw [hline t ht, Nat.zero_add]

/-- The tokens of a single line are those of its text and the one that ends it. -/
theorem tokenize_line (hbreak : '\n' ∉ text) : tokenize (String.ofList text) =
    (scan (.code []) 1 text).result.map (· ++ [.endOfFile 1]) := by
  have hcount : text.count '\n' = 0 := List.count_eq_zero.2 hbreak
  rw [tokenize_eq, String.toList_ofList, lastLine, hcount]
  cases hscan : (scan (.code []) 1 text).result with
  | error e => rfl
  | ok tokens =>
    -- There is no line break to trim.
    have hnone : breakCount tokens = 0 := (standOn_of_scan hscan).2.trans hcount
    have hwords : ∀ t ∈ tokens, t.isLineBreak = false := by
      simpa [breakCount] using hnone
    have htrimmed : IsTrimmed tokens :=
      ⟨fun t ht => hwords t (List.mem_of_head? ht), fun t ht => hwords t (List.mem_of_getLast? ht)⟩
    have hempty : AreBreaks [] := List.forall_mem_nil _
    have hsame := trimLineBreaks_of_isTrimmed hempty htrimmed hempty
    rw [List.nil_append, List.append_nil] at hsame
    show Except.ok (trimLineBreaks tokens ++ _) = _
    rw [hsame]
    rfl

/-- The words of a line, read as a text of its own. -/
def lineWords (line : List Char) : Except LexicalError (List Token) :=
  (tokenize (String.ofList line)).map List.dropLast

theorem lineWords_eq (hbreak : '\n' ∉ text) :
    lineWords text = (scan (.code []) 1 text).result := by
  unfold lineWords
  rw [tokenize_line hbreak]
  cases (scan (.code []) 1 text).result with
  | error e => rfl
  | ok words =>
    show Except.ok (words ++ [Token.endOfFile 1]).dropLast = Except.ok words
    rw [List.dropLast_concat]

theorem exists_lineWords_iff (line : List Char) : (∃ words, lineWords line = .ok words) ↔
    ∃ tokens, tokenize (String.ofList line) = .ok tokens := by
  unfold lineWords
  cases tokenize (String.ofList line) with
  | error e => constructor <;> nofun
  | ok tokens => exact ⟨fun _ => ⟨tokens, rfl⟩, fun _ => ⟨tokens.dropLast, rfl⟩⟩

/-! ### Joining lines -/

/-- The tokens of lines from a given line on, each on its own line.  There is a line break behind
    every line but the last. -/
def joinLines : Nat → List (List Token) → List Token
  | _, [] => []
  | line, [last] => last.map (Token.relined fun _ => line)
  | line, first :: second :: rest =>
    first.map (Token.relined fun _ => line) ++
      .lineBreak line :: joinLines (line + 1) (second :: rest)

theorem joinLines_cons {cuts : List (List Token)} (hsome : cuts ≠ []) (line : Nat)
    (first : List Token) : joinLines line (first :: cuts) =
      first.map (Token.relined fun _ => line) ++ .lineBreak line :: joinLines (line + 1) cuts := by
  obtain ⟨second, rest, rfl⟩ := List.exists_cons_of_ne_nil hsome
  rfl

/-- What comes of lines from a given line on: the words of all of them, joined, or the error in the
    first one in which there is an error. -/
inductive ByLines (line : Nat) (lines : List (List Char)) :
    Except LexicalError (List Token) → Prop
  | ok {cuts : List (List Token)}
      (hcuts : List.Forall₂ (fun text words => lineWords text = .ok words) lines cuts) :
      ByLines line lines (.ok (joinLines line cuts))
  | error {before after : List (List Char)} {wrong : List Char} {error : LexicalError}
      (hlines : lines = before ++ wrong :: after)
      (hbefore : ∀ text ∈ before, ∃ words, lineWords text = .ok words)
      (hwrong : lineWords wrong = .error error) :
      ByLines line lines (.error { error with line := line + before.length })

/-- No line is before the first one. -/
theorem ByLines.error_first {e : LexicalError} (h : lineWords text = .error e) (line : Nat)
    (rest : List (List Char)) : ByLines line (text :: rest) (.error { e with line := line }) := by
  have hlines : text :: rest = [] ++ text :: rest := rfl
  exact .error hlines nofun h

/-- A text is cut into words line by line. -/
theorem byLines_scan (line : Nat) (text : List Char) :
    ByLines line (text.splitOn '\n') (scan (.code []) line text).result := by
  induction text using linesInduction generalizing line with
  | last text hbreak =>
    rw [splitOn_of_notMem hbreak, scan_line hbreak, ← lineWords_eq hbreak]
    cases hwords : lineWords text with
    | ok words => exact .ok (.cons hwords .nil)
    | error e => exact .error_first hwords line []
  | more first rest hfirst ih =>
    have hlater := ih (line + 1)
    rw [splitOn_append_break hfirst, scan_append, List.count_eq_zero.2 hfirst, Nat.add_zero,
      Logged.result_bind, scan_line hfirst, ← lineWords_eq hfirst]
    cases hwords : lineWords first with
    | error e => exact .error_first hwords line _
    | ok words =>
      simp only [relinedTokens, Except.bind, Logged.result_bind]
      generalize (scan (.code []) (line + 1) rest).result = later at hlater ⊢
      cases hlater with
      | @ok cuts hcuts =>
        have hsome : cuts ≠ [] := by
          intro hnil
          rw [hnil, List.forall₂_nil_right_iff] at hcuts
          exact splitOn_ne_nil rest hcuts
        have hall : ByLines line (first :: rest.splitOn '\n')
            (.ok (joinLines line (words :: cuts))) :=
          .ok (.cons hwords hcuts)
        rw [joinLines_cons hsome] at hall
        exact hall
      | @error before after wrong e hlines hbefore hwrong =>
        -- The first line is one more in front of the one in which the error is.
        have hall : ByLines line (first :: rest.splitOn '\n')
            (.error { e with line := line + (first :: before).length }) :=
          .error (congrArg (first :: ·) hlines) (List.forall_mem_cons.2 ⟨⟨words, hwords⟩, hbefore⟩)
            hwrong
        rw [List.length_cons, Nat.add_comm before.length, ← Nat.add_assoc] at hall
        exact hall

/-- There is an error in a text iff there is one in some line of it. -/
theorem ByLines.exists_ok_iff {lines : List (List Char)}
    {result : Except LexicalError (List Token)} (h : ByLines line lines result) :
    (∃ tokens, result = .ok tokens) ↔ ∀ text ∈ lines, ∃ words, lineWords text = .ok words := by
  cases h with
  | @ok cuts hcuts =>
    refine ⟨fun _ text htext => ?_, fun _ => ⟨_, rfl⟩⟩
    obtain ⟨index, hindex, rfl⟩ := List.getElem_of_mem htext
    exact ⟨_, List.forall₂_iff_get.1 hcuts |>.2 index hindex (hcuts.length_eq ▸ hindex)⟩
  | @error before after wrong e hlines hbefore hwrong =>
    constructor
    · nofun
    · intro hall
      have hmem : wrong ∈ lines := by
        rw [hlines]
        exact List.mem_append_right _ List.mem_cons_self
      obtain ⟨words, hwords⟩ := hall wrong hmem
      rw [hwrong] at hwords
      cases hwords

/-! ### Main result -/

/-- A text is cut into words iff each of its lines is, as a text of its own.  Then its tokens are
    those of its lines, each on its own line, with a line break between two lines and without the
    line breaks at both ends; and the end of the program is on the last line.  Otherwise, the error
    is the one in the first line that has an error, on that line. -/
theorem tokenize_splitOn (source : String) :
    let lines := source.toList.splitOn '\n'
    ((∃ tokens, tokenize source = .ok tokens) ↔
        ∀ line ∈ lines, ∃ tokens, tokenize (String.ofList line) = .ok tokens) ∧
      ∃ joined, ByLines 1 lines joined ∧
        tokenize source =
          joined.map fun tokens => trimLineBreaks tokens ++ [.endOfFile lines.length] := by
  intro lines
  have hlines := byLines_scan 1 source.toList
  have hsource := tokenize_eq source
  rw [← length_splitOn] at hsource
  refine ⟨?_, _, hlines, hsource⟩
  simp only [← exists_lineWords_iff]
  rw [hsource]
  generalize (scan (.code []) 1 source.toList).result = joined at hlines ⊢
  rw [← hlines.exists_ok_iff]
  cases joined with
  | error e => constructor <;> nofun
  | ok tokens => exact ⟨fun _ => ⟨tokens, rfl⟩, fun _ => ⟨_, rfl⟩⟩

/-- A string that is still open at the end of its line is an error there, whatever quotes are on the
    next line. -/
example : tokenize "A\n\"b\n\"" = .error ⟨"\"b", 2⟩ := by
  cbv

end CalcLang
