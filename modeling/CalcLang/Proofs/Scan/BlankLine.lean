import CalcLang.Proofs.Scan.Placement
import Mathlib.Data.List.DropRight

/-! # Blank lines

    A line of blanks, with or without a comment, adds a line break behind another one or at the
    start of the text, and moves what follows down by a line:

    * `squeeze`: a row of tokens without the line breaks that directly follow a line break.
    * `squeeze_trimLineBreaks`: these may be left out before or after the ends are trimmed.
    * `insertLine`: a text with one more line.
    * `tokenize_insertLine`: the tokens of a program with one more blank line. -/

namespace CalcLang

variable {tokens tokens' : List Token} {line number : Nat} {blank text : List Char}
  {source : String}

/-! ### Rows of line breaks -/

/-- The same tokens with no more than the first line break of each row. -/
def squeeze : List Token → List Token
  | [] => []
  | token :: rest =>
    token :: if token.isLineBreak then (squeeze rest).dropWhile Token.isLineBreak else squeeze rest

theorem squeeze_word {token : Token} (h : token.isLineBreak = false) (rest : List Token) :
    squeeze (token :: rest) = token :: squeeze rest := by
  rw [squeeze, if_neg (by rw [h]; exact Bool.false_ne_true)]

theorem squeeze_break {token : Token} (h : token.isLineBreak = true) (rest : List Token) :
    squeeze (token :: rest) = token :: (squeeze rest).dropWhile Token.isLineBreak := by
  rw [squeeze, if_pos h]

theorem head?_squeeze (tokens : List Token) : (squeeze tokens).head? = tokens.head? := by
  cases tokens <;> rfl

theorem squeeze_eq_nil : squeeze tokens = [] ↔ tokens = [] := by
  cases tokens <;> simp [squeeze]

/-- A line break behind a line break is left out. -/
theorem squeeze_break_break {token token' : Token} (h : token.isLineBreak = true)
    (h' : token'.isLineBreak = true) (rest : List Token) :
    squeeze (token :: token' :: rest) = squeeze (token :: rest) := by
  rw [squeeze_break h, squeeze_break h, squeeze_break h', List.dropWhile_cons_of_pos h',
    List.dropWhile_idempotent]

theorem squeeze_append_congr (before : List Token) (h : squeeze tokens = squeeze tokens') :
    squeeze (before ++ tokens) = squeeze (before ++ tokens') := by
  induction before with
  | nil => exact h
  | cons token rest ih => rw [List.cons_append, List.cons_append, squeeze, squeeze, ih]

theorem squeeze_dropWhile (tokens : List Token) :
    squeeze (tokens.dropWhile Token.isLineBreak) =
      (squeeze tokens).dropWhile Token.isLineBreak := by
  induction tokens with
  | nil => rfl
  | cons token rest ih =>
    cases htoken : token.isLineBreak with
    | false =>
      rw [squeeze_word htoken, List.dropWhile_cons_of_neg (by simp [htoken]),
        List.dropWhile_cons_of_neg (by simp [htoken]), squeeze_word htoken]
    | true =>
      rw [squeeze_break htoken, List.dropWhile_cons_of_pos htoken,
        List.dropWhile_cons_of_pos htoken, List.dropWhile_idempotent, ih]

/-- The last token stays the last one, or it is a line break that is left out. -/
theorem squeeze_concat (tokens : List Token) (last : Token) :
    squeeze (tokens ++ [last]) = squeeze tokens ++ [last] ∨
      last.isLineBreak = true ∧ squeeze (tokens ++ [last]) = squeeze tokens := by
  induction tokens with
  | nil =>
    left
    simp [squeeze]
  | cons token rest ih =>
    rw [List.cons_append, squeeze, squeeze]
    rcases ih with ih | ⟨hlast, ih⟩
    · rw [ih, List.dropWhile_append]
      -- If only line breaks are between the two tokens, then the last one may be another one.
      by_cases hbreak : token.isLineBreak = true
      · by_cases hempty : ((squeeze rest).dropWhile Token.isLineBreak).isEmpty = true
        · rw [List.isEmpty_iff.1 hempty]
          by_cases hlast : last.isLineBreak = true
          · right
            simp [hbreak, hlast]
          · left
            simp [hbreak, hlast]
        · left
          simp [hbreak, hempty]
      · left
        simp [hbreak]
    · exact .inr ⟨hlast, by rw [ih]⟩

theorem squeeze_rdropWhile (tokens : List Token) :
    squeeze (tokens.rdropWhile Token.isLineBreak) =
      (squeeze tokens).rdropWhile Token.isLineBreak := by
  induction tokens using List.reverseRecOn with
  | nil => rfl
  | append_singleton rest last ih =>
    by_cases hbreak : last.isLineBreak = true
    · rw [List.rdropWhile_concat_pos _ _ _ hbreak, ih]
      rcases squeeze_concat rest last with h | ⟨-, h⟩
      · rw [h, List.rdropWhile_concat_pos _ _ _ hbreak]
      · rw [h]
    · rw [List.rdropWhile_concat_neg _ _ _ hbreak]
      rcases squeeze_concat rest last with h | ⟨h, -⟩
      · rw [h, List.rdropWhile_concat_neg _ _ _ hbreak]
      · exact absurd h hbreak

/-- Line breaks in a row may be left out before or after the ends are trimmed. -/
theorem squeeze_trimLineBreaks (tokens : List Token) :
    squeeze (trimLineBreaks tokens) = trimLineBreaks (squeeze tokens) := by
  show squeeze ((tokens.dropWhile Token.isLineBreak).rdropWhile Token.isLineBreak) =
    ((squeeze tokens).dropWhile Token.isLineBreak).rdropWhile Token.isLineBreak
  rw [squeeze_rdropWhile, squeeze_dropWhile]

/-- One more line break at the start or behind a line break is trimmed or left out. -/
theorem squeeze_trim_insert {before : List Token} (after : List Token)
    (hbefore : ∀ t ∈ before.getLast?, t.isLineBreak = true) (line : Nat) :
    squeeze (trimLineBreaks (before ++ .lineBreak line :: after)) =
      squeeze (trimLineBreaks (before ++ after)) := by
  rcases List.eq_nil_or_concat' before with rfl | ⟨front, last, rfl⟩
  · rfl
  · have hlast : last.isLineBreak = true := hbefore last List.getLast?_concat
    have hsame : squeeze (front ++ last :: .lineBreak line :: after) =
        squeeze (front ++ last :: after) :=
      squeeze_append_congr front (squeeze_break_break hlast rfl after)
    rw [squeeze_trimLineBreaks, squeeze_trimLineBreaks, List.append_assoc, List.append_assoc]
    exact congrArg trimLineBreaks hsame

/-! ### Texts -/

/-- A line of blanks, with or without a comment behind them. -/
inductive IsBlankLine : List Char → Prop where
  | nil : IsBlankLine []
  | blank {c : Char} {rest : List Char} (hblank : c = ' ' ∨ c = '\t' ∨ c = '\r')
    (hrest : IsBlankLine rest) : IsBlankLine (c :: rest)
  | comment {text : List Char} (htext : '\n' ∉ text) : IsBlankLine ('#' :: text)

/-- A text with one more line before its line of the given number. -/
def insertLine (blank : List Char) : Nat → List Char → List Char
  | number + 2, c :: rest =>
    c :: insertLine blank (if c = '\n' then number + 1 else number + 2) rest
  | _, text => blank ++ '\n' :: text

/-- The number of a line behind the insertion. -/
def lineBelow (number line : Nat) : Nat := if line < number then line else line + 1

theorem scan_comment (line : Nat) (h : '\n' ∉ text) :
    (scan .comment line text).result = .ok [] := by
  induction text with
  | nil => rfl
  | cons c rest ih =>
    obtain ⟨hc, hrest⟩ := not_or.1 (mt List.mem_cons.2 h)
    have hstep : ScanMode.comment.step c = ([], .comment) := by
      unfold ScanMode.step
      rw [if_neg (Ne.symm hc)]
    rw [scan_cons, hstep, if_neg (Ne.symm hc), breakOf, if_neg (Ne.symm hc)]
    rw [Logged.result_bind_eq_ok]
    exact ⟨[], rfl, Logged.result_bind_eq_ok.2 ⟨[], ih hrest, rfl⟩⟩

/-- There is nothing on a blank line. -/
theorem IsBlankLine.scan_eq (h : IsBlankLine blank) (line : Nat) :
    (scan (.code []) line blank).result = .ok [] := by
  induction h with
  | nil => rfl
  | @blank c rest hblank hrest ih =>
    have hc : c ≠ '\n' := by
      rcases hblank with rfl | rfl | rfl <;> decide
    have hstep : (ScanMode.code []).step c = ([[]], .code []) := by
      rcases hblank with rfl | rfl | rfl <;> rfl
    rw [scan_cons, hstep, if_neg hc, breakOf, if_neg hc, Logged.result_bind_eq_ok]
    exact ⟨[], rfl, Logged.result_bind_eq_ok.2 ⟨[], ih, rfl⟩⟩
  | @comment text htext =>
    have hstep : (ScanMode.code []).step '#' = ([[]], .comment) := rfl
    rw [scan_cons, hstep, Logged.result_bind_eq_ok]
    exact ⟨[], rfl, Logged.result_bind_eq_ok.2 ⟨[], scan_comment line htext, rfl⟩⟩

theorem IsBlankLine.count_eq (h : IsBlankLine blank) : blank.count '\n' = 0 := by
  rw [List.count_eq_zero]
  induction h with
  | nil => exact List.not_mem_nil
  | @blank c rest hblank hrest ih =>
    rw [List.mem_cons, not_or]
    refine ⟨?_, ih⟩
    rcases hblank with rfl | rfl | rfl <;> decide
  | comment htext =>
    rw [List.mem_cons, not_or]
    exact ⟨by decide, htext⟩

/-- A line break and a blank line, before a text or behind the line break that ends a line. -/
theorem insertLine_cases (blank : List Char) (hnumber : 1 ≤ number)
    (hlast : number ≤ lastLine text) :
    number = 1 ∧ insertLine blank number text = blank ++ '\n' :: text ∨
      ∃ before after, text = before ++ '\n' :: after ∧ number = before.count '\n' + 2 ∧
        insertLine blank number text = before ++ '\n' :: (blank ++ '\n' :: after) := by
  unfold lastLine at hlast
  induction text generalizing number with
  | nil =>
    rw [List.count_nil] at hlast
    obtain rfl : number = 1 := by omega
    exact .inl ⟨rfl, rfl⟩
  | cons c rest ih =>
    rw [count_cons_break] at hlast
    match number, hnumber with
    | 1, _ => exact .inl ⟨rfl, rfl⟩
    | number + 2, _ =>
      right
      rw [insertLine]
      by_cases hc : c = '\n'
      · rw [if_pos hc] at hlast ⊢
        rcases ih (show 1 ≤ number + 1 by omega) (by omega) with ⟨hone, hinsert⟩ | h
        · -- The line break is the one that the line is put behind.
          refine ⟨[], rest, by rw [hc]; rfl, by rw [List.count_nil]; omega, ?_⟩
          rw [hinsert, hc]
          rfl
        · obtain ⟨before, after, rfl, hcount, hinsert⟩ := h
          refine ⟨c :: before, after, rfl, ?_, by rw [hinsert]; rfl⟩
          rw [count_cons_break, if_pos hc]
          omega
      · rw [if_neg hc] at hlast ⊢
        rcases ih (show 1 ≤ number + 2 by omega) (by omega) with ⟨hone, -⟩ | h
        · omega
        · obtain ⟨before, after, rfl, hcount, hinsert⟩ := h
          refine ⟨c :: before, after, rfl, ?_, by rw [hinsert]; rfl⟩
          rw [count_cons_break, if_neg hc]
          omega

theorem count_insertLine (h : IsBlankLine blank) (hnumber : 1 ≤ number)
    (hlast : number ≤ lastLine text) :
    (insertLine blank number text).count '\n' = text.count '\n' + 1 := by
  rcases insertLine_cases blank hnumber hlast with ⟨-, hinsert⟩ | ⟨before, after, rfl, -, hinsert⟩
  · rw [hinsert, List.count_append, h.count_eq, count_cons_break, if_pos rfl]
    omega
  · rw [hinsert]
    simp only [List.count_append, count_cons_break, reduceIte, h.count_eq]
    omega

/-! ### Scanning -/

/-- A blank line before a text only makes a line break and moves the text down. -/
theorem IsBlankLine.scan_append (h : IsBlankLine blank) (line : Nat) (text : List Char) :
    (scan (.code []) line (blank ++ '\n' :: text)).result =
      (relinedTokens (· + 1) (scan (.code []) line text).result).map (.lineBreak line :: ·) := by
  rw [CalcLang.scan_append, h.count_eq, Nat.add_zero, Logged.result_bind_of_ok _ (h.scan_eq line),
    Logged.result_bind, scan_relined]
  cases (scan (.code []) line text).result <;> rfl

/-- The tokens of a text on other lines, with one more line break at the start or behind a line
    break. -/
inductive OneMoreBreak (f : Nat → Nat) :
    Except LexicalError (List Token) → Except LexicalError (List Token) → Prop where
  | error (error : LexicalError) : OneMoreBreak f (.error error) (.error (error.relined f))
  | ok (before after : List Token) (line : Nat)
    (hbefore : ∀ t ∈ before.getLast?, t.isLineBreak = true) :
    OneMoreBreak f (.ok (before ++ after))
      (.ok (before.map (Token.relined f) ++ .lineBreak line :: after.map (Token.relined f)))

theorem relined_congr_error {f g : Nat → Nat} {error : LexicalError}
    (h : f error.line = g error.line) : error.relined f = error.relined g := by
  unfold LexicalError.relined
  rw [h]

/-- What is behind the insertion is moved down by a line. -/
theorem relinedTokens_lineBelow (hline : number ≤ line) (text : List Char) :
    relinedTokens (· + 1) (scan (.code []) line text).result =
      relinedTokens (lineBelow number) (scan (.code []) line text).result := by
  have hbelow (other : Nat) (h : line ≤ other) : other + 1 = lineBelow number other := by
    unfold lineBelow
    rw [if_neg (by omega)]
  cases hscan : (scan (.code []) line text).result with
  | error e =>
    exact congrArg Except.error (relined_congr_error (hbelow _ (failsWith_scan _ _ _ e hscan).1))
  | ok tokens =>
    refine congrArg Except.ok (map_relined_congr ?_)
    intro t ht
    exact hbelow _ ((standOn_of_scan hscan).1.line_mem t ht).1

/-- What is before the insertion stays where it is. -/
theorem relinedTokens_above (hnumber : line + text.count '\n' < number) :
    relinedTokens (lineBelow number) (scan (.code []) line text).result =
      (scan (.code []) line text).result := by
  have habove (other : Nat) (h : other ≤ line + text.count '\n') :
      lineBelow number other = other := by
    unfold lineBelow
    rw [if_pos (by omega)]
  cases hscan : (scan (.code []) line text).result with
  | error e =>
    exact congrArg Except.error
      (relined_congr_error (g := id) (habove _ (failsWith_scan _ _ _ e hscan).2))
  | ok tokens =>
    obtain ⟨hstand, hcount⟩ := standOn_of_scan hscan
    refine congrArg Except.ok ((map_relined_congr (g := id) ?_).trans (List.map_id _))
    intro t ht
    have hline := (hstand.line_mem t ht).2
    rw [hcount] at hline
    exact habove _ hline

theorem scan_insertLine (h : IsBlankLine blank) (hnumber : 1 ≤ number)
    (hlast : number ≤ lastLine text) :
    OneMoreBreak (lineBelow number) (scan (.code []) 1 text).result
      (scan (.code []) 1 (insertLine blank number text)).result := by
  rcases insertLine_cases blank hnumber hlast with
    ⟨rfl, hinsert⟩ | ⟨before, after, rfl, hcount, hinsert⟩
  · -- The whole text is moved down.
    rw [hinsert, h.scan_append, relinedTokens_lineBelow (Nat.le_refl 1)]
    cases (scan (.code []) 1 text).result with
    | error e => exact .error e
    | ok tokens => exact .ok [] tokens 1 nofun
  · have hbelow := h.scan_append (1 + before.count '\n' + 1) after
    rw [relinedTokens_lineBelow (show number ≤ 1 + before.count '\n' + 1 by omega)] at hbelow
    have habove := relinedTokens_above (show 1 + before.count '\n' < number by omega)
    rw [hinsert, scan_append, scan_append, Logged.result_bind, Logged.result_bind]
    cases hfirst : (scan (.code []) 1 before).result with
    | error e =>
      rw [hfirst] at habove
      have herror : e.relined (lineBelow number) = e := Except.error.inj habove
      have hmore : OneMoreBreak (lineBelow number) (.error e) (.error (e.relined _)) := .error e
      rw [herror] at hmore
      exact hmore
    | ok tokens =>
      rw [hfirst] at habove
      have htokens : tokens.map (Token.relined (lineBelow number)) = tokens :=
        Except.ok.inj habove
      show OneMoreBreak _ (Logged.result (_ >>= _)) (Logged.result (_ >>= _))
      rw [Logged.result_bind, Logged.result_bind, hbelow]
      cases (scan (.code []) (1 + before.count '\n' + 1) after).result with
      | error e => exact .error e
      | ok later =>
        -- The further line break is put behind the one between the two parts of the text.
        have hbreak : Token.relined (lineBelow number) (.lineBreak (1 + before.count '\n')) =
            .lineBreak (1 + before.count '\n') := by
          show Token.lineBreak (lineBelow number (1 + before.count '\n')) = _
          unfold lineBelow
          rw [if_pos (by omega)]
        have hmore : OneMoreBreak (lineBelow number) _ _ :=
          .ok (tokens ++ [.lineBreak (1 + before.count '\n')]) later
            (1 + before.count '\n' + 1) (by simp [Token.lineBreak, Token.plain, Token.isLineBreak])
        rw [List.map_append, htokens, List.map_singleton, hbreak, List.append_assoc,
          List.append_assoc] at hmore
        exact hmore

/-! ### Programs -/

/-- The tokens of a program on other lines, up to further line breaks in a row, or the error on
    another line. -/
inductive SameTokens (f : Nat → Nat) :
    Except LexicalError (List Token) → Except LexicalError (List Token) → Prop where
  | error (error : LexicalError) : SameTokens f (.error error) (.error (error.relined f))
  | ok {body body' : List Token} (last : Nat)
    (hbody : squeeze body' = squeeze (body.map (Token.relined f))) :
    SameTokens f (.ok (body ++ [.endOfFile last])) (.ok (body' ++ [.endOfFile (f last)]))

/-- The tokens of a program with one more blank line. -/
theorem tokenize_insertLine (h : IsBlankLine blank) (hnumber : 1 ≤ number)
    (hlast : number ≤ lastLine source.toList) :
    SameTokens (lineBelow number) (tokenize source)
      (tokenize (String.ofList (insertLine blank number source.toList))) := by
  have hscan := scan_insertLine h hnumber hlast
  have hend : lastLine (insertLine blank number source.toList) =
      lineBelow number (lastLine source.toList) := by
    unfold lineBelow
    rw [if_neg (by omega), lastLine, count_insertLine h hnumber hlast]
    rfl
  rw [tokenize_eq, tokenize_eq, String.toList_ofList, hend]
  generalize (scan (.code []) 1 source.toList).result = one,
    (scan (.code []) 1 (insertLine blank number source.toList)).result = two at hscan
  cases hscan with
  | error e => exact .error e
  | ok before after line hbefore =>
    refine .ok _ ?_
    rw [← trimLineBreaks_relined, List.map_append]
    apply squeeze_trim_insert
    intro t ht
    rw [List.getLast?_map] at ht
    obtain ⟨t', ht', rfl⟩ := Option.map_eq_some_iff.1 ht
    exact hbefore t' ht'

end CalcLang
