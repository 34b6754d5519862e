import CalcLang.Proofs.Scan.Lines

/-! # Letter case

    Words are classified by their upper-case forms, so it does not matter in which case the ASCII
    letters of a text are written:

    * `Text.asciiUpcase`: a text with its ASCII letters in upper case.
    * `Token.upcased`: the token of a word that is written so.
    * `tokenize_upcased`: the tokens of such a text, or the error in it. -/

namespace CalcLang

namespace Text

variable {c mark : Char}

/-- A text with its ASCII letters in upper case. -/
def asciiUpcase (text : String) : String := String.ofList (text.toList.map asciiUpcaseChar)

@[simp] theorem toList_asciiUpcase (text : String) :
    (asciiUpcase text).toList = text.toList.map asciiUpcaseChar :=
  String.toList_ofList

theorem asciiUpcase_ofList (text : List Char) :
    asciiUpcase (String.ofList text) = String.ofList (text.map asciiUpcaseChar) := by
  rw [asciiUpcase, String.toList_ofList]

theorem asciiUpcase_append (first second : String) :
    asciiUpcase (first ++ second) = asciiUpcase first ++ asciiUpcase second := by
  simp [asciiUpcase]

/-! ### Characters -/

/-- A character is kept, or it is a lower-case letter and moves to its upper-case form. -/
theorem asciiUpcaseChar_cases (c : Char) :
    (97 ≤ c.toNat ∧ c.toNat ≤ 122 ∧ (asciiUpcaseChar c).toNat = c.toNat - 32) ∨
      ((c.toNat < 97 ∨ 122 < c.toNat) ∧ asciiUpcaseChar c = c) := by
  unfold asciiUpcaseChar
  split
  · next hletter =>
    obtain ⟨hfirst, hlast⟩ : 97 ≤ c.toNat ∧ c.toNat ≤ 122 := hletter
    have hvalid : (c.toNat - 32).isValidChar := .inl (by omega)
    refine .inl ⟨hfirst, hlast, ?_⟩
    rw [Char.ofNat, dif_pos hvalid]
    rfl
  · next hother =>
    have hother' : ¬ (97 ≤ c.toNat ∧ c.toNat ≤ 122) := hother
    exact .inr ⟨by omega, rfl⟩

/-- Only a character itself moves to one that is no letter. -/
theorem asciiUpcaseChar_eq_iff (hmark : mark.toNat < 65) : asciiUpcaseChar c = mark ↔ c = mark := by
  rcases asciiUpcaseChar_cases c with ⟨hfirst, hlast, hmoved⟩ | ⟨-, hsame⟩
  · constructor
    · intro h
      rw [h] at hmoved
      omega
    · rintro rfl
      omega
  · rw [hsame]

theorem asciiUpcaseChar_eq_break : asciiUpcaseChar c = '\n' ↔ c = '\n' :=
  asciiUpcaseChar_eq_iff (by decide)

/-- A character has the same upper-case form as its own upper-case letter. -/
theorem upcaseChar_asciiUpcaseChar (c : Char) : upcaseChar (asciiUpcaseChar c) = upcaseChar c := by
  rcases asciiUpcaseChar_cases c with ⟨hfirst, hlast, hmoved⟩ | ⟨-, hsame⟩
  · have hagain : asciiUpcaseChar (asciiUpcaseChar c) = asciiUpcaseChar c := by
      rcases asciiUpcaseChar_cases (asciiUpcaseChar c) with ⟨hletter, -⟩ | ⟨-, hsame⟩
      · omega
      · exact hsame
    have hsmall : (asciiUpcaseChar c).toNat < 0x80 := by omega
    have hsmall' : c.toNat < 0x80 := by omega
    rw [upcaseChar, upcaseChar, if_pos hsmall, if_pos hsmall', hagain]
  · rw [hsame]

theorem upcase_map_asciiUpcaseChar (word : List Char) :
    upcase (word.map asciiUpcaseChar) = upcase word := by
  induction word with
  | nil => rfl
  | cons c rest ih => rw [List.map_cons, upcase_cons, upcase_cons, upcaseChar_asciiUpcaseChar, ih]

end Text

open Text

/-! ### Tokens -/

/-- The token of a word that is written in upper case. -/
def Token.upcased (token : Token) : Token := { token with value := token.value.map asciiUpcase }

/-- The error about a word that is written in upper case. -/
def LexicalError.upcased (error : LexicalError) : LexicalError :=
  { error with text := asciiUpcase error.text }

/-- What a text in upper case is cut into: its tokens in upper case, or the error in it. -/
def upcasedTokens : Except LexicalError (List Token) → Except LexicalError (List Token) :=
  mapTokens Token.upcased LexicalError.upcased

/-- The case of a word is nothing to its kind. -/
theorem Word.kind?_map_asciiUpcaseChar (word : List Char) :
    kind? (word.map asciiUpcaseChar) = kind? word := by
  rw [kind?, kind?, upcase_map_asciiUpcaseChar]

theorem Token.upcased_ofWord (kind : Kind) (word : List Char) (line : Nat) :
    (Token.ofWord kind word line).upcased = .ofWord kind (word.map asciiUpcaseChar) line := by
  unfold ofWord upcased
  cases kind.carriesText
  · rfl
  · rw [if_pos rfl, if_pos rfl, Option.map_some, asciiUpcase_ofList]

/-! ### Scanning -/

/-- The same mode, with what has been read in upper case. -/
def ScanMode.upcased : ScanMode → ScanMode
  | .code pending => .code (pending.map asciiUpcaseChar)
  | .text pending => .text (pending.map asciiUpcaseChar)
  | .comment => .comment

theorem ScanMode.pending_upcased (mode : ScanMode) :
    mode.upcased.pending = mode.pending.map asciiUpcaseChar := by
  cases mode <;> rfl

/-- No letter steers the scanner. -/
theorem ScanMode.step_upcased (mode : ScanMode) (c : Char) :
    mode.upcased.step (asciiUpcaseChar c) =
      ((mode.step c).1.map (List.map asciiUpcaseChar), (mode.step c).2.upcased) := by
  have hcomment : asciiUpcaseChar c = '#' ↔ c = '#' := asciiUpcaseChar_eq_iff (by decide)
  have hblank : asciiUpcaseChar c = ' ' ↔ c = ' ' := asciiUpcaseChar_eq_iff (by decide)
  have htab : asciiUpcaseChar c = '\t' ↔ c = '\t' := asciiUpcaseChar_eq_iff (by decide)
  have hreturn : asciiUpcaseChar c = '\r' ↔ c = '\r' := asciiUpcaseChar_eq_iff (by decide)
  have hopen : asciiUpcaseChar c = '(' ↔ c = '(' := asciiUpcaseChar_eq_iff (by decide)
  have hclose : asciiUpcaseChar c = ')' ↔ c = ')' := asciiUpcaseChar_eq_iff (by decide)
  have hcomma : asciiUpcaseChar c = ',' ↔ c = ',' := asciiUpcaseChar_eq_iff (by decide)
  have hquote : asciiUpcaseChar c = '"' ↔ c = '"' := asciiUpcaseChar_eq_iff (by decide)
  unfold step
  rw [pending_upcased]
  simp only [asciiUpcaseChar_eq_break]
  split
  · rfl
  · cases mode with
    | comment => rfl
    | text pending =>
      simp only [upcased, hquote]
      split <;> rfl
    | code pending =>
      simp only [upcased, hcomment, hblank, htab, hreturn, hopen, hclose, hcomma, hquote]
      split_ifs <;> rfl

theorem flush_upcased (line : Nat) (pending : List Char) :
    (flush line (pending.map asciiUpcaseChar)).result =
      upcasedTokens (flush line pending).result := by
  by_cases hempty : pending = []
  · rw [hempty]
    rfl
  · have hempty' : pending.map asciiUpcaseChar ≠ [] := by
      simpa using hempty
    rw [result_flush hempty, result_flush hempty', ← List.map_reverse,
      Word.kind?_map_asciiUpcaseChar]
    cases Word.kind? pending.reverse with
    | none => simp only [upcasedTokens, mapTokens, LexicalError.upcased, asciiUpcase_ofList]
    | some kind => simp only [upcasedTokens, mapTokens, List.map_singleton, Token.upcased_ofWord]

theorem scan_upcased (mode : ScanMode) (line : Nat) (text : List Char) :
    (scan mode.upcased line (text.map asciiUpcaseChar)).result =
      upcasedTokens (scan mode line text).result := by
  induction text generalizing mode line with
  | nil =>
    rw [List.map_nil, scan, scan, ScanMode.pending_upcased]
    exact flush_upcased line mode.pending
  | cons c rest ih =>
    rw [List.map_cons, scan_cons, scan_cons, ScanMode.step_upcased]
    simp only [breakOf, asciiUpcaseChar_eq_break]
    refine mapTokens_bind (flushAll_map (flush_upcased line) _) fun words => ?_
    refine mapTokens_bind (ih ..) fun later => ?_
    -- A line break has no letters.
    have hline : (if c = '\n' then [Token.lineBreak line] else []) =
        (if c = '\n' then [Token.lineBreak line] else []).map Token.upcased := by
      split <;> rfl
    rw [hline, ← List.map_append, ← List.map_append, ← hline]
    rfl

/-! ### Programs -/

theorem lastLine_upcased (text : List Char) :
    lastLine (text.map asciiUpcaseChar) = lastLine text := by
  have hcount : (text.map asciiUpcaseChar).count '\n' = text.count '\n' := by
    rw [List.count_eq_countP, List.count_eq_countP, List.countP_map]
    apply List.countP_congr
    intro c _
    simp [asciiUpcaseChar_eq_break]
  rw [lastLine, lastLine, hcount]

/-- The tokens of a text in upper case are its tokens in upper case, and an error in it is about the
    same word on the same line. -/
theorem tokenize_upcased (source : String) :
    tokenize (asciiUpcase source) = upcasedTokens (tokenize source) := by
  have hscan := scan_upcased (.code []) 1 source.toList
  rw [tokenize_eq, tokenize_eq, toList_asciiUpcase, lastLine_upcased]
  have hmode : (ScanMode.code []).upcased = .code [] := rfl
  rw [hmode] at hscan
  rw [hscan]
  cases (scan (.code []) 1 source.toList).result with
  | error e => rfl
  | ok scanned =>
    have hkind (t : Token) : t.upcased.isLineBreak = t.isLineBreak := rfl
    have htrim := trimLineBreaks_map hkind scanned
    simp only [upcasedTokens, mapTokens, Except.map, htrim, List.map_append]
    rfl

end CalcLang
