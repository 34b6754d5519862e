import CalcLang.Proofs.Scan.Lines

/-! # Where tokens stand

    The lines of the tokens of a text follow from its line breaks alone:

    * `StandOn`: some tokens stand on a line and the lines behind it, each line break at the end of
      its own line.
    * `standOn_of_scan`: the tokens of a text do, from the line on which the text starts.
    * `failsWith_scan`: a word that is no word of the language is reported on a line of the text.
    * `exists_body_of_tokenize`: what is known of the tokens of a program. -/

namespace CalcLang

open Logged

variable {line : Nat} {mode : ScanMode} {text : List Char} {tokens more : List Token}
  {error : LexicalError}

/-! ### Standing on lines -/

/-- The number of line breaks among some tokens. -/
def breakCount (tokens : List Token) : Nat := tokens.countP Token.isLineBreak

@[simp] theorem breakCount_nil : breakCount [] = 0 := rfl

theorem breakCount_cons (token : Token) (tokens : List Token) :
    breakCount (token :: tokens) = (if token.isLineBreak then 1 else 0) + breakCount tokens := by
  unfold breakCount
  rw [List.countP_cons, Nat.add_comm]

theorem breakCount_append (tokens more : List Token) :
    breakCount (tokens ++ more) = breakCount tokens + breakCount more :=
  List.countP_append

theorem breakCount_relined (f : Nat → Nat) (tokens : List Token) :
    breakCount (tokens.map (Token.relined f)) = breakCount tokens := by
  unfold breakCount
  rw [List.countP_map]
  rfl

theorem breakCount_eq_zero (h : ∀ t ∈ tokens, t.isLineBreak = false) : breakCount tokens = 0 := by
  unfold breakCount
  rw [List.countP_eq_zero]
  intro t ht
  rw [h t ht]
  exact Bool.false_ne_true

/-- Some tokens stand on a line and the lines behind it: every line break ends its line. -/
def StandOn : Nat → List Token → Prop
  | _, [] => True
  | line, token :: rest =>
    token.line = line ∧ StandOn (line + if token.isLineBreak then 1 else 0) rest

theorem standOn_append : StandOn line (tokens ++ more) ↔
    StandOn line tokens ∧ StandOn (line + breakCount tokens) more := by
  induction tokens generalizing line with
  | nil => simp [StandOn]
  | cons token rest ih =>
    rw [List.cons_append, StandOn, StandOn, ih, breakCount_cons, Nat.add_assoc, and_assoc]

theorem standOn_of_line_eq (hbreak : ∀ t ∈ tokens, t.isLineBreak = false)
    (h : ∀ t ∈ tokens, t.line = line) : StandOn line tokens := by
  induction tokens with
  | nil => trivial
  | cons token rest ih =>
    rw [StandOn, hbreak token List.mem_cons_self]
    refine ⟨h token List.mem_cons_self, ?_⟩
    apply ih
    · intro t ht
      exact hbreak t (List.mem_cons_of_mem _ ht)
    · intro t ht
      exact h t (List.mem_cons_of_mem _ ht)

/-- No token stands before the first line or behind the last one. -/
theorem StandOn.line_mem (h : StandOn line tokens) :
    ∀ t ∈ tokens, line ≤ t.line ∧ t.line ≤ line + breakCount tokens := by
  induction tokens generalizing line with
  | nil => nofun
  | cons token rest ih =>
    obtain ⟨hline, hrest⟩ := h
    intro t ht
    rw [breakCount_cons]
    rcases List.mem_cons.1 ht with rfl | ht
    · omega
    · have hbounds := ih hrest t ht
      omega

/-- On which line a token that ends a row stands. -/
theorem StandOn.line_last {last : Token} (h : StandOn line tokens)
    (hlast : last ∈ tokens.getLast?) (hword : last.isLineBreak = false) :
    last.line = line + breakCount tokens := by
  obtain ⟨rest, rfl⟩ := List.getLast?_eq_some_iff.1 hlast
  obtain ⟨hrest, hline, -⟩ := standOn_append.1 h
  rw [hline, breakCount_append, breakCount_cons, hword]
  rfl

theorem StandOn.relined {f : Nat → Nat} {line' : Nat} (h : StandOn line tokens)
    (hf : ∀ i ≤ breakCount tokens, f (line + i) = line' + i) :
    StandOn line' (tokens.map (Token.relined f)) := by
  induction tokens generalizing line line' with
  | nil => trivial
  | cons token rest ih =>
    obtain ⟨hline, hrest⟩ := h
    refine ⟨?_, ih hrest ?_⟩
    · show f token.line = line'
      rw [hline]
      exact hf 0 (Nat.zero_le _)
    · -- Behind a line break, the lines are shifted by one on both sides.
      intro i hi
      have hsame : (Token.relined f token).isLineBreak = token.isLineBreak := rfl
      have hnext := hf ((if token.isLineBreak then 1 else 0) + i)
        (by rw [breakCount_cons]; omega)
      rw [hsame, Nat.add_assoc, Nat.add_assoc]
      exact hnext

/-! ### Scanning -/

theorem line_of_flush {pending : List Char} (h : (flush line pending).result = .ok tokens) :
    ∀ t ∈ tokens, t.line = line := by
  intro t ht
  obtain ⟨-, kind, -, rfl⟩ := exists_kind_of_flush h t ht
  rfl

theorem line_of_flushAll {pending : List (List Char)}
    (h : (flushAll line pending).result = .ok tokens) : ∀ t ∈ tokens, t.line = line :=
  forall_of_flushAll (fun _ _ _ => line_of_flush) h

theorem failsWith_flush (line : Nat) (pending : List Char) :
    (flush line pending).FailsWith (·.line = line) := by
  intro error h
  by_cases hsome : pending = []
  · rw [hsome] at h
    cases h
  · rw [result_flush hsome] at h
    split at h <;> cases h
    rfl

theorem failsWith_flushAll (line : Nat) (words : List (List Char)) :
    (flushAll line words).FailsWith (·.line = line) := by
  induction words with
  | nil => exact failsWith_pure []
  | cons first rest ih =>
    exact (failsWith_flush line first).bind fun _ _ => ih.bind fun _ _ => failsWith_pure _

theorem isLineBreak_of_isWord {token : Token} (h : token.kind.isWord = true) :
    token.isLineBreak = false := by
  unfold Token.isLineBreak
  rw [beq_eq_false_iff_ne]
  intro hkind
  rw [hkind] at h
  cases h

theorem count_cons_break (c : Char) (rest : List Char) :
    (c :: rest).count '\n' = (if c = '\n' then 1 else 0) + rest.count '\n' := by
  rw [List.count_cons, Nat.add_comm]
  simp only [beq_iff_eq]

/-- The tokens of a text stand on its lines, and there is one line break for each of its own. -/
theorem standOn_of_scan (h : (scan mode line text).result = .ok tokens) :
    StandOn line tokens ∧ breakCount tokens = text.count '\n' := by
  induction text generalizing mode line tokens with
  | nil =>
    have hbreak : ∀ t ∈ tokens, t.isLineBreak = false := by
      intro t ht
      exact isLineBreak_of_isWord (isWord_of_flush h t ht)
    exact ⟨standOn_of_line_eq hbreak (line_of_flush h), breakCount_eq_zero hbreak⟩
  | cons c rest ih =>
    rw [scan_cons] at h
    obtain ⟨words, hwords, h⟩ := Logged.result_bind_eq_ok.1 h
    obtain ⟨later, hlater, h⟩ := Logged.result_bind_eq_ok.1 h
    cases h
    have hbreak : ∀ t ∈ words, t.isLineBreak = false := by
      intro t ht
      exact isLineBreak_of_isWord (isWord_of_flushAll hwords t ht)
    have hnone := breakCount_eq_zero hbreak
    have hfirst := standOn_of_line_eq hbreak (line_of_flushAll hwords)
    obtain ⟨hrest, hcount⟩ := ih hlater
    -- The words come first, then the line break that the character may be.
    simp only [standOn_append, breakCount_append, hnone, count_cons_break, hcount, Nat.zero_add]
    unfold breakOf
    by_cases hc : c = '\n'
    · simp only [if_pos hc] at hrest ⊢
      exact ⟨⟨⟨hfirst, rfl, trivial⟩, hrest⟩, rfl⟩
    · simp only [if_neg hc] at hrest ⊢
      exact ⟨⟨⟨hfirst, trivial⟩, hrest⟩, rfl⟩

/-- A word that is no word of the language is reported on a line of the text. -/
theorem failsWith_scan (mode : ScanMode) (line : Nat) (text : List Char) :
    (scan mode line text).FailsWith fun error =>
      line ≤ error.line ∧ error.line ≤ line + text.count '\n' := by
  induction text generalizing mode line with
  | nil =>
    refine (failsWith_flush line mode.pending).mono ?_
    intro error hline
    omega
  | cons c rest ih =>
    rw [scan_cons, count_cons_break]
    have hwords := failsWith_flushAll line (mode.step c).1
    have hlater := ih (mode.step c).2 (if c = '\n' then line + 1 else line)
    refine (hwords.mono ?_).bind fun _ _ => (hlater.mono ?_).bind fun _ _ => failsWith_pure _
    · intro error hline
      omega
    · intro error hline
      split_ifs at hline ⊢ <;> omega

/-! ### Programs -/

theorem tokenize_eq_error_iff {source : String} : tokenize source = .error error ↔
    (scan (.code []) 1 source.toList).result = .error error := by
  rw [tokenize_eq]
  cases (scan (.code []) 1 source.toList).result with
  | error e => rfl
  | ok scanned => constructor <;> nofun

/-- The tokens of a program are its body and the token that ends it.  The body has no line break at
    its ends, and stands on lines of the text. -/
theorem exists_body_of_tokenize {source : String} (h : tokenize source = .ok tokens) :
    ∃ body first, tokens = body ++ [.endOfFile (lastLine source.toList)] ∧ IsTrimmed body ∧
      (∀ t ∈ body, t.kind.isInside = true) ∧ StandOn first body ∧ 1 ≤ first ∧
      first + breakCount body ≤ lastLine source.toList := by
  obtain ⟨scanned, hscanned, rfl⟩ := tokenize_eq_ok_iff.1 h
  obtain ⟨htrimmed, lead, trail, -, -, hall⟩ := exists_breaks_trimLineBreaks scanned
  obtain ⟨hstand, hcount⟩ := standOn_of_scan hscanned
  refine ⟨trimLineBreaks scanned, 1 + breakCount lead, rfl, htrimmed, ?_, ?_, by omega, ?_⟩
  · intro t ht
    exact isInside_of_scan hscanned t (mem_of_mem_trimLineBreaks ht)
  · rw [hall] at hstand
    exact (standOn_append.1 (standOn_append.1 hstand).2).1
  · rw [hall, breakCount_append, breakCount_append] at hcount
    unfold lastLine
    omega

end CalcLang
