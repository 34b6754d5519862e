import CalcLang.Proofs.Expression.Grammar
import CalcLang.Token.Scan

/-! # The tokens of a text

    What scanning a text can give, whatever the text is:

    * `Word.isWord_of_kind?`: no word is classified as a line break, as the end of the program or as a
      phrase.
    * `isInside_of_scan`: the tokens of a text are words and line breaks.
    * `tokenize_eq_ok_iff`: the tokens of a program are those of its text without the line breaks at
      both ends, and behind them the one that ends the program. -/

namespace CalcLang

/-! ### The kinds of words -/

theorem Kind.mem_all (kind : Kind) : kind ∈ Kind.all := by
  cases kind with
  | dataType type => cases type <;> decide
  | operator operator => cases operator <;> decide
  | keyword keyword => cases keyword <;> decide
  | comparison comparison => cases comparison <;> decide
  | connective connective => cases connective <;> decide
  | literal literal => cases literal <;> decide
  | var sort => cases sort <;> decide
  | function function => cases function <;> decide
  | phrase phrase => cases phrase <;> decide
  | _ => decide

theorem Kind.isWord_of_symbol? {kind : Kind} {symbol : String} (h : kind.symbol? = some symbol) :
    kind.isWord = true := by
  cases kind with
  | lineBreak | endOfFile | phrase => simp [symbol?] at h
  | _ => rfl

theorem Kind.isWord_of_ofSpelling? {spelling : String} {kind : Kind}
    (h : ofSpelling? spelling = some kind) : kind.isWord = true := by
  unfold ofSpelling? at h
  rw [Option.or_eq_some_iff] at h
  obtain h | ⟨-, h⟩ := h
  · have hsymbol := List.find?_some h
    exact isWord_of_symbol? (by simpa using hsymbol)
  · -- Both alternate spellings are those of keywords.
    simp only [alternateSpellings, List.lookup_cons, List.lookup_nil] at h
    repeat' split at h
    all_goals cases h <;> rfl

namespace Word

theorem isWord_of_shape? {word : List Char} {kind : Kind} (h : shape? word = some kind) :
    kind.isWord = true := by
  unfold shape? at h
  -- Whichever shape a word has, its kind is the one of a literal or of a variable.
  repeat' split at h
  all_goals cases h <;> rfl

/-- A word is never taken for a line break, for the end of the program or for a phrase. -/
theorem isWord_of_kind? {word : List Char} {kind : Kind} (h : kind? word = some kind) :
    kind.isWord = true := by
  unfold kind? classify at h
  rw [Option.or_eq_some_iff] at h
  obtain h | ⟨-, h⟩ := h
  · exact Kind.isWord_of_ofSpelling? h
  · exact isWord_of_shape? h

end Word

/-! ### Scanning -/

/-- The kinds of the tokens before the end of a program: words and line breaks. -/
def Kind.isInside (kind : Kind) : Bool :=
  kind.isScanned && kind != .endOfFile

theorem Kind.isScanned_of_isInside {kind : Kind} (h : kind.isInside = true) :
    kind.isScanned = true := by
  rw [isInside, Bool.and_eq_true] at h
  exact h.1

theorem Kind.isInside_of_isWord {kind : Kind} (h : kind.isWord = true) :
    kind.isInside = true := by
  cases kind <;> simp_all [isWord, isInside, isScanned, endsLine]

variable {mode : ScanMode} {line : Nat} {text : List Char} {tokens : List Token}

theorem flush_nil (line : Nat) : flush line [] = pure [] := rfl

/-- What classifying a pending word gives. -/
theorem result_flush {pending : List Char} (hsome : pending ≠ []) : (flush line pending).result =
    match Word.kind? pending.reverse with
    | none => .error ⟨String.ofList pending.reverse, line⟩
    | some kind => .ok [Token.ofWord kind pending.reverse line] := by
  obtain ⟨last, before, rfl⟩ := List.exists_cons_of_ne_nil hsome
  unfold flush
  cases hkind : Word.kind? (last :: before).reverse with
  | none => simp only [hkind, Logged.result_fail]
  | some kind => simp only [hkind]; rfl

/-- The only token of a pending word is of the kind of that word. -/
theorem exists_kind_of_flush {pending : List Char} (h : (flush line pending).result = .ok tokens) :
    ∀ t ∈ tokens, pending ≠ [] ∧
      ∃ kind, Word.kind? pending.reverse = some kind ∧ t = .ofWord kind pending.reverse line := by
  intro t ht
  by_cases hsome : pending = []
  · rw [hsome] at h
    cases h
    cases ht
  · rw [result_flush hsome] at h
    cases hkind : Word.kind? pending.reverse with
    | none =>
      rw [hkind] at h
      cases h
    | some kind =>
      rw [hkind] at h
      cases h
      exact ⟨hsome, kind, rfl, List.mem_singleton.1 ht⟩

theorem isWord_of_flush {pending : List Char} (h : (flush line pending).result = .ok tokens) :
    ∀ t ∈ tokens, t.kind.isWord = true := by
  intro t ht
  obtain ⟨-, kind, hkind, rfl⟩ := exists_kind_of_flush h t ht
  exact Word.isWord_of_kind? hkind

/-! ### One character

    What reading a character does depends on the mode only, so that an induction over a text has a
    single case. -/

/-- The words that a character completes, each given last character first, and the mode behind it. -/
def ScanMode.step (mode : ScanMode) (c : Char) : List (List Char) × ScanMode :=
  if c = '\n' then ([mode.pending], .code [])
  else
    match mode with
    | .comment => ([], .comment)
    | .text pending => if c = '"' then ([c :: pending], .code []) else ([], .text (c :: pending))
    | .code pending =>
      if c = '#' then ([pending], .comment)
      else if c = ' ' ∨ c = '\t' ∨ c = '\r' then ([pending], .code [])
      else if c = '(' ∨ c = ')' ∨ c = ',' then ([pending, [c]], .code [])
      else if c = '"' then ([pending], .text [c])
      else ([], .code (c :: pending))

/-- The tokens of some pending words on one line. -/
def flushAll (line : Nat) : List (List Char) → Logged LexicalError (List Token)
  | [] => pure []
  | pending :: rest => do
    let word ← flush line pending
    let words ← flushAll line rest
    pure (word ++ words)

/-- The line break that a character makes. -/
def breakOf (line : Nat) (c : Char) : List Token :=
  if c = '\n' then [.lineBreak line] else []

theorem scan_cons (mode : ScanMode) (line : Nat) (c : Char) (rest : List Char) :
    scan mode line (c :: rest) = (do
      let words ← flushAll line (mode.step c).1
      let later ← scan (mode.step c).2 (if c = '\n' then line + 1 else line) rest
      pure (words ++ breakOf line c ++ later)) := by
  rw [scan.eq_def]
  unfold ScanMode.step breakOf
  by_cases hbreak : c = '\n'
  · simp [hbreak, flushAll]
  · simp only [if_neg hbreak]
    cases mode with
    | comment => simp [flushAll]
    | text pending =>
      by_cases hquote : c = '"'
      · simp [hquote, flushAll]
      · simp [hquote, flushAll]
    | code pending =>
      simp only
      repeat' split
      all_goals simp [flushAll, -bind_pure_comp]

/-- What holds of the token of each word holds of all tokens. -/
theorem forall_of_flushAll {P : Token → Prop} {words : List (List Char)}
    (hflush : ∀ word ∈ words, ∀ cut, (flush line word).result = .ok cut → ∀ t ∈ cut, P t)
    (h : (flushAll line words).result = .ok tokens) : ∀ t ∈ tokens, P t := by
  induction words generalizing tokens with
  | nil =>
    cases h
    nofun
  | cons first rest ih =>
    obtain ⟨cut, hcut, h⟩ := Logged.result_bind_eq_ok.1 h
    obtain ⟨later, hlater, h⟩ := Logged.result_bind_eq_ok.1 h
    cases h
    obtain ⟨hfirst, hrest⟩ := List.forall_mem_cons.1 hflush
    intro t ht
    rcases List.mem_append.1 ht with ht | ht
    · exact hfirst cut hcut t ht
    · exact ih hrest hlater t ht

theorem isWord_of_flushAll {pending : List (List Char)}
    (h : (flushAll line pending).result = .ok tokens) : ∀ t ∈ tokens, t.kind.isWord = true :=
  forall_of_flushAll (fun _ _ _ => isWord_of_flush) h

/-- The tokens of a text are words and line breaks. -/
theorem isInside_of_scan (h : (scan mode line text).result = .ok tokens) :
    ∀ t ∈ tokens, t.kind.isInside = true := by
  induction text generalizing mode line tokens with
  | nil =>
    intro t ht
    exact Kind.isInside_of_isWord (isWord_of_flush h t ht)
  | cons c rest ih =>
    rw [scan_cons] at h
    obtain ⟨words, hwords, h⟩ := Logged.result_bind_eq_ok.1 h
    obtain ⟨later, hlater, h⟩ := Logged.result_bind_eq_ok.1 h
    cases h
    intro t ht
    obtain ht | ht := List.mem_append.1 ht
    · obtain ht | ht := List.mem_append.1 ht
      · exact Kind.isInside_of_isWord (isWord_of_flushAll hwords t ht)
      · -- What is left is the line break that the character may be.
        unfold breakOf at ht
        split at ht
        · rw [List.mem_singleton.1 ht]
          rfl
        · cases ht
    · exact ih hlater t ht

/-! ### Programs -/

theorem mem_of_mem_trimLineBreaks {t : Token} (h : t ∈ trimLineBreaks tokens) : t ∈ tokens := by
  unfold trimLineBreaks at h
  rw [List.mem_reverse] at h
  have h := (List.dropWhile_sublist _).subset h
  rw [List.mem_reverse] at h
  exact (List.dropWhile_sublist _).subset h

theorem tokenize_eq (source : String) :
    tokenize source = (scan (.code []) 1 source.toList).result.map fun scanned =>
      trimLineBreaks scanned ++ [.endOfFile (lastLine source.toList)] := by
  unfold tokenize tokenizeLogged
  rw [Logged.result_bind]
  cases (scan (.code []) 1 source.toList).result <;> rfl

/-- The tokens of a program are those of its text without the line breaks at both ends, and behind
    them the one that ends the program. -/
theorem tokenize_eq_ok_iff {source : String} :
    tokenize source = .ok tokens ↔ ∃ scanned, (scan (.code []) 1 source.toList).result = .ok scanned ∧
      tokens = trimLineBreaks scanned ++ [.endOfFile (lastLine source.toList)] := by
  unfold tokenize tokenizeLogged
  constructor
  · intro h
    obtain ⟨scanned, hscanned, h⟩ := Logged.result_bind_eq_ok.1 h
    cases h
    exact ⟨scanned, hscanned, rfl⟩
  · intro ⟨scanned, hscanned, htokens⟩
    rw [Logged.result_bind_of_ok _ hscanned, htokens]
    rfl

end CalcLang
