import CalcLang.Proofs.Program.Alignment
import CalcLang.Proofs.Program.Relining
import CalcLang.Proofs.Scan.BlankLine

/-! # Blank lines in a program

    A line break that directly follows another one changes nothing:

    * `Session.Respaced`: two sessions at the same place of two programs that differ in such line
      breaks only.
    * `alignment_respaced`: they are read side by side, since a row of line breaks is one step.
    * `compile_of_squeeze_eq`: two programs that differ in such line breaks only are compiled alike.
    * `compile_insertLine`: a blank line moves down what is behind it, and nothing else changes. -/

namespace CalcLang

open Reading

variable {options : ReadOptions} {s t : Session} {tokens tokens' : List Token} {count : Nat}

/-! ### Lines -/

theorem takeWhile_squeeze (tokens : List Token) :
    (squeeze tokens).takeWhile (!·.kind.endsLine) = tokens.takeWhile (!·.kind.endsLine) := by
  induction tokens with
  | nil => rfl
  | cons token rest ih =>
    cases hends : token.kind.endsLine with
    | true => rw [squeeze, List.takeWhile_cons_of_neg, List.takeWhile_cons_of_neg] <;> simp [hends]
    | false =>
      rw [squeeze_word (isLineBreak_of_endsLine hends), List.takeWhile_cons_of_pos,
        List.takeWhile_cons_of_pos, ih] <;> simp [hends]

/-- Within a line, tokens are passed before or after further line breaks are left out. -/
theorem drop_squeeze (h : count ≤ (tokens.takeWhile (!·.kind.endsLine)).length) :
    (squeeze tokens).drop count = squeeze (tokens.drop count) := by
  induction tokens generalizing count with
  | nil => simp [squeeze]
  | cons token rest ih =>
    cases count with
    | zero => rfl
    | succ count =>
      cases hends : token.kind.endsLine with
      | true => simp [hends] at h
      | false =>
        rw [squeeze_word (isLineBreak_of_endsLine hends), List.drop_succ_cons, List.drop_succ_cons]
        apply ih
        simpa [hends] using h

theorem take_eq_take_line (h : count ≤ (tokens.takeWhile (!·.kind.endsLine)).length) :
    tokens.take count = (tokens.takeWhile (!·.kind.endsLine)).take count := by
  have hsplit := List.takeWhile_append_dropWhile (p := (!·.kind.endsLine)) (l := tokens)
  conv_lhs => rw [← hsplit]
  exact List.take_append_of_le_length h

/-! ### Sessions -/

namespace Session

theorem ahead_skipLineBreaks (s : Session) :
    s.skipLineBreaks.ahead = s.ahead.dropWhile Token.isLineBreak := by
  have hdrop : (s.ahead.takeWhile Token.isLineBreak ++ s.ahead.dropWhile Token.isLineBreak).drop
      (s.ahead.takeWhile Token.isLineBreak).length = s.ahead.dropWhile Token.isLineBreak :=
    List.drop_left
  rw [List.takeWhile_append_dropWhile] at hdrop
  exact hdrop

/-- Behind line breaks, some tokens have been passed and a line starts. -/
theorem passed_skipLineBreaks (h : s.next.isLineBreak = true) :
    s.skipLineBreaks.passed.isEmpty = false ∧ s.skipLineBreaks.atLineStart = true := by
  have hrow := areBreaks_takeWhile s.ahead
  have hsome : s.ahead.takeWhile Token.isLineBreak ≠ [] := by
    unfold next at h
    cases hahead : s.ahead with
    | nil =>
      rw [hahead] at h
      cases h
    | cons first rest =>
      rw [hahead] at h
      have hfirst : first.isLineBreak = true := h
      rw [List.takeWhile_cons_of_pos hfirst]
      exact List.cons_ne_nil _ _
  have hpassed : s.skipLineBreaks.passed =
      (s.ahead.takeWhile Token.isLineBreak).reverse ++ s.passed := by
    show (s.ahead.take _).reverse ++ s.passed = _
    rw [← List.prefix_iff_eq_take.1 (List.takeWhile_prefix _)]
  unfold atLineStart
  rw [hpassed]
  -- The last line break of the row is the token passed last.
  obtain ⟨last, others, hreverse⟩ := List.exists_cons_of_ne_nil (List.reverse_ne_nil_iff.2 hsome)
  rw [hreverse]
  refine ⟨rfl, hrow last ?_⟩
  rw [← List.mem_reverse, hreverse]
  exact List.mem_cons_self

/-- Two sessions at the same place of two programs that differ in further line breaks only. -/
structure Respaced (s t : Session) : Prop where
  options : s.options = t.options
  isEmpty_passed : s.passed.isEmpty = t.passed.isEmpty
  atLineStart : s.atLineStart = t.atLineStart
  ahead : squeeze s.ahead = squeeze t.ahead
  endLine : s.endLine = t.endLine
  diagnostics : s.diagnostics = t.diagnostics

namespace Respaced

theorem next (h : s.Respaced t) : s.next = t.next := by
  have hhead := congrArg List.head? h.ahead
  rw [head?_squeeze, head?_squeeze] at hhead
  unfold Session.next terminator
  rw [List.headD_eq_head?_getD, List.headD_eq_head?_getD, hhead, h.endLine]

theorem isEmpty_ahead (h : s.Respaced t) : s.ahead.isEmpty = t.ahead.isEmpty := by
  have hempty : s.ahead = [] ↔ t.ahead = [] := by
    rw [← squeeze_eq_nil, h.ahead, squeeze_eq_nil]
  rw [Bool.eq_iff_iff, List.isEmpty_iff, List.isEmpty_iff, hempty]

theorem restOfLine (h : s.Respaced t) : s.restOfLine = t.restOfLine := by
  unfold Session.restOfLine
  rw [← takeWhile_squeeze, h.ahead, takeWhile_squeeze]

/-- The token behind the next one, if that is a word. -/
theorem second (h : s.Respaced t) (hline : 1 ≤ s.restOfLine.length) :
    s.ahead[1]? = t.ahead[1]? := by
  have hline' : 1 ≤ t.restOfLine.length := h.restOfLine ▸ hline
  rw [← List.head?_drop, ← List.head?_drop, ← head?_squeeze (s.ahead.drop 1),
    ← head?_squeeze (t.ahead.drop 1), ← drop_squeeze hline, ← drop_squeeze hline', h.ahead]

/-- What stands before two sessions may grow by the same tokens. -/
theorem passing {s' t' : Session} {passed : List Token} (h : s.Respaced t)
    (hs : s'.passed = passed ++ s.passed) (ht : t'.passed = passed ++ t.passed) :
    s'.passed.isEmpty = t'.passed.isEmpty ∧ s'.atLineStart = t'.atLineStart := by
  have hstart := h.atLineStart
  unfold Session.atLineStart at hstart ⊢
  rw [hs, ht]
  cases passed with
  | nil => exact ⟨h.isEmpty_passed, hstart⟩
  | cons last rest => exact ⟨rfl, rfl⟩

theorem skip (h : s.Respaced t) (hcount : count ≤ s.restOfLine.length) :
    (s.skip count).Respaced (t.skip count) := by
  -- Within a line no line break is left out, so the same tokens are passed.
  have hcount' : count ≤ t.restOfLine.length := h.restOfLine ▸ hcount
  have htake : s.ahead.take count = t.ahead.take count := by
    rw [take_eq_take_line hcount, take_eq_take_line hcount']
    exact congrArg (List.take count) h.restOfLine
  obtain ⟨hempty, hstart⟩ : (s.skip count).passed.isEmpty = (t.skip count).passed.isEmpty ∧
      (s.skip count).atLineStart = (t.skip count).atLineStart :=
    h.passing rfl (by rw [htake]; rfl)
  refine ⟨h.options, hempty, hstart, ?_, h.endLine, h.diagnostics⟩
  show squeeze (s.ahead.drop count) = squeeze (t.ahead.drop count)
  rw [← drop_squeeze hcount, ← drop_squeeze hcount', h.ahead]

theorem skipLineBreaks (h : s.Respaced t) : s.skipLineBreaks.Respaced t.skipLineBreaks := by
  have hnext := h.next
  cases hbreak : s.next.isLineBreak with
  | false =>
    rw [skipLineBreaks_eq_self hbreak, skipLineBreaks_eq_self (hnext ▸ hbreak)]
    exact h.skip (Nat.zero_le _)
  | true =>
    obtain ⟨hempty, hstart⟩ := passed_skipLineBreaks hbreak
    obtain ⟨hempty', hstart'⟩ := passed_skipLineBreaks (hnext ▸ hbreak)
    refine ⟨h.options, hempty.trans hempty'.symm, hstart.trans hstart'.symm, ?_, h.endLine,
      h.diagnostics⟩
    rw [ahead_skipLineBreaks, ahead_skipLineBreaks, squeeze_dropWhile, squeeze_dropWhile, h.ahead]

theorem logged (h : s.Respaced t) (records records' : List Record) :
    Respaced { s with log := s.log ++ records } { t with log := t.log ++ records' } :=
  { h with }

theorem noted (h : s.Respaced t) (diagnostic : Diagnostic) :
    Respaced { s with diagnostics := s.diagnostics ++ [diagnostic] }
      { t with diagnostics := t.diagnostics ++ [diagnostic] } := by
  refine { h with diagnostics := ?_ }
  show s.diagnostics ++ [diagnostic] = t.diagnostics ++ [diagnostic]
  rw [h.diagnostics]

theorem looksLike (h : s.Respaced t) : s.LooksLike t where
  options := h.options
  isEmpty_passed := h.isEmpty_passed
  atLineStart := h.atLineStart
  next := h.next
  isEmpty_ahead := h.isEmpty_ahead
  restOfLine := h.restOfLine
  second := h.second
  diagnostics := h.diagnostics

end Respaced

end Session

/-- Sessions that differ in further line breaks never read different statements. -/
theorem alignment_respaced : Alignment Session.Respaced Session.Respaced where
  between_of_within h := h
  looksLike := Session.Respaced.looksLike
  skip := Session.Respaced.skip
  skipLineBreaks := Session.Respaced.skipLineBreaks
  logged records records' h := h.logged records records'
  noted diagnostic h := h.noted diagnostic
  turn h := .inl h

/-! ### Programs -/

theorem headD_tokens (hpassed : s.passed = []) : s.tokens.headD s.terminator = s.next := by
  unfold Session.tokens Session.next
  rw [hpassed]
  cases s.ahead <;> rfl

theorem startsWithTitle_eq (hpassed : s.passed = []) :
    s.startsWithTitle = (s.next.kind == .keyword .program &&
      (s.ahead[1]?.getD s.terminator).kind == .literal .string) := by
  unfold Session.startsWithTitle Session.tokens Session.next
  rw [hpassed]
  cases s.ahead with
  | nil => rfl
  | cons first rest => cases rest <;> rfl

theorem startsWithTitle_respaced (h : s.Respaced t) (hs : s.passed = []) (ht : t.passed = []) :
    s.startsWithTitle = t.startsWithTitle := by
  have hterminator : s.terminator = t.terminator := congrArg Token.endOfFile h.endLine
  rw [startsWithTitle_eq hs, startsWithTitle_eq ht, ← h.next, hterminator]
  cases hkind : s.next.kind == .keyword .program with
  | false => rfl
  | true =>
    -- The title is behind a word, so no line break is left out before it.
    have hword : s.next.isLineBreak = false :=
      isLineBreak_of_endsLine (by rw [eq_of_beq hkind]; rfl)
    have hinside : s.next.kind ≠ .endOfFile := by
      rw [eq_of_beq hkind]
      decide
    rw [h.second (Session.length_restOfLine_pos hword hinside)]

/-- Two programs that differ in further line breaks in a row only are compiled alike. -/
theorem compile_of_squeeze_eq (options : ReadOptions) (last : Nat)
    (h : squeeze tokens = squeeze tokens') :
    (Session.compile ⟨options, [], tokens, last, [], []⟩).result =
      (Session.compile ⟨options, [], tokens', last, [], []⟩).result := by
  have hsessions : Session.Respaced ⟨options, [], tokens, last, [], []⟩
      ⟨options, [], tokens', last, [], []⟩ :=
    ⟨rfl, rfl, rfl, h, rfl, rfl⟩
  apply alignment_respaced.compile_eq hsessions
  · rw [startsWithTitle_respaced hsessions rfl rfl]
  · intro _
    rw [headD_tokens rfl, headD_tokens rfl, hsessions.next]

/-- A blank line may be put before any line of a text.  What is compiled from the text is the same,
    with what is on that line and behind it one line further down, and so is what is wrong with
    it. -/
theorem compile_insertLine (options : ReadOptions) (source : String) (blank : List Char)
    (number : Nat) (hblank : IsBlankLine blank) (hnumber : 1 ≤ number)
    (hlast : number ≤ lastLine source.toList) :
    compile options (String.ofList (insertLine blank number source.toList)) =
      relinedOutcome (lineBelow number) (compile options source) := by
  have htokens := tokenize_insertLine hblank hnumber hlast
  rw [compile_eq, compile_eq]
  generalize tokenize source = one,
    tokenize (String.ofList (insertLine blank number source.toList)) = two at htokens
  cases htokens with
  | error e => rfl
  | ok last hbody =>
    simp only [ofTokens_append_endOfFile]
    rw [← compile_relined]
    exact compile_of_squeeze_eq options _ hbody

/-- A comment before the second line, inside of a conditional in line form, moves its body and the
    token that is skipped behind it. -/
theorem compile_insertLine_comment :
    IsBlankLine " \t# IF".toList ∧
      String.ofList (insertLine " \t# IF".toList 2 "IF A == 1\nDISP A\nEND".toList) =
        "IF A == 1\n \t# IF\nDISP A\nEND" ∧
      compile .default "IF A == 1\n \t# IF\nDISP A\nEND" =
        relinedOutcome (lineBelow 2) (compile .default "IF A == 1\nDISP A\nEND") := by
  have hblank : IsBlankLine " \t# IF".toList :=
    .blank (.inl rfl) (.blank (.inr (.inl rfl)) (.comment (by decide)))
  have h := compile_insertLine .default "IF A == 1\nDISP A\nEND" _ 2 hblank (by decide) (by decide)
  have htext : String.ofList (insertLine " \t# IF".toList 2 "IF A == 1\nDISP A\nEND".toList) =
      "IF A == 1\n \t# IF\nDISP A\nEND" := by
    decide
  rw [htext] at h
  exact ⟨hblank, htext, h⟩

end CalcLang
