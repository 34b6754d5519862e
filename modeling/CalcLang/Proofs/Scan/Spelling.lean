import CalcLang.Proofs.Scan.Words

/-! # How words are spelled

    A token of a text can be written down again: its text is one word, and the word is classified as
    the token was.

    * `Word.IsSpelling`: the texts that are one word wherever they stand between blanks.
    * `scan_spelling`: such a text is cut off as one word.
    * `Token.IsReadable`: the text of a token is one word, of the kind of the token.
    * `isReadable_of_scan`: the words of a text are readable. -/

namespace CalcLang

variable {line : Nat} {mode : ScanMode} {pending text tail : List Char} {tokens : List Token}
  {kind : Kind} {c d : Char}

/-! ### Upper-casing -/

/-- Upper-casing brings in no character before the letters, save where there is no character. -/
theorem Text.mem_upcaseChar (h : d ∈ upcaseChar c) : d = c ∨ d = '\x00' ∨ 65 ≤ d.toNat := by
  have hofNat (code : Nat) (hcode : 65 ≤ code) :
      Char.ofNat code = '\x00' ∨ 65 ≤ (Char.ofNat code).toNat := by
    by_cases hvalid : code.isValidChar
    · right
      rw [Char.ofNat, dif_pos hvalid]
      exact hcode
    · left
      rw [Char.ofNat, dif_neg hvalid]
      rfl
  unfold upcaseChar at h
  split at h
  · -- An ASCII character is kept or is the upper case of a letter.
    have hd := List.mem_singleton.1 h
    unfold asciiUpcaseChar at hd
    split at hd
    · next hletter =>
      have hlow : 97 ≤ c.toNat := hletter.1
      rw [hd]
      exact .inr (hofNat _ (by omega))
    · exact .inl hd
  · split at h
    · next codes hlookup =>
      obtain ⟨code, hcode, rfl⟩ := List.mem_map.1 h
      have htable : ∀ entry ∈ CaseTable.expansions, ∀ code ∈ entry.2, 65 ≤ code := by
        decide +kernel
      obtain ⟨before, after, hentry, -⟩ := List.lookup_eq_some_iff.1 hlookup
      refine .inr (hofNat _ (htable (c.toNat, codes) ?_ code hcode))
      rw [hentry]
      simp
    · split at h
      · next run hrun =>
        have htable : ∀ run ∈ CaseTable.runs, 65 ≤ run.image := by
          decide +kernel
        have himage := htable run (List.mem_of_find?_eq_some hrun)
        rw [List.mem_singleton.1 h]
        refine .inr (hofNat _ ?_)
        unfold CaseTable.Run.apply
        omega
      · exact .inl (List.mem_singleton.1 h)

/-- Upper-casing brings in no quote. -/
theorem Text.quote_mem_of_upcase (h : '"' ∈ upcase text) : '"' ∈ text := by
  obtain ⟨c, hc, hquote⟩ := List.mem_flatMap.1 h
  rcases mem_upcaseChar hquote with rfl | h | h
  · exact hc
  · cases h
  · have hcode : ('"' : Char).toNat = 34 := rfl
    omega

/-! ### Spellings -/

/-- A character that ends the word before it, outside of strings. -/
def endsWord (c : Char) : Bool :=
  ['\n', '#', ' ', '\t', '\r', '(', ')', ',', '"'].contains c

namespace Word

/-- A text that is one word wherever it stands between blanks. -/
inductive IsSpelling : List Char → Prop
  /-- No character of it ends a word. -/
  | run {text : List Char} (hsome : text ≠ []) (hrun : ∀ c ∈ text, endsWord c = false) :
    IsSpelling text
  /-- A character that is a word of its own. -/
  | mark {c : Char} (hmark : c = '(' ∨ c = ')' ∨ c = ',') : IsSpelling [c]
  /-- A string. -/
  | quoted {inner : List Char} (hinner : ∀ c ∈ inner, c ≠ '"' ∧ c ≠ '\n') :
    IsSpelling ('"' :: inner ++ ['"'])

/-- A word none of whose characters ends a word, with the check over them computed. -/
theorem IsSpelling.of_any (hsome : text ≠ []) (hrun : text.any endsWord = false) :
    IsSpelling text := by
  apply IsSpelling.run hsome
  intro c hc
  exact Bool.eq_false_iff.2 (List.any_eq_false.1 hrun c hc)

theorem IsSpelling.ne_nil (h : IsSpelling text) : text ≠ [] := by
  cases h with
  | run hsome hrun => exact hsome
  | mark hmark => simp
  | quoted hinner => simp

end Word

/-! ### Cutting off a word -/

theorem step_code_of_run (hrun : endsWord c = false) :
    (ScanMode.code pending).step c = ([], .code (c :: pending)) := by
  unfold endsWord at hrun
  simp only [List.contains_cons, Bool.or_eq_false_iff, beq_eq_false_iff_ne, List.contains_nil]
    at hrun
  unfold ScanMode.step
  simp [hrun]

theorem step_text_of_inner (hquote : c ≠ '"') (hbreak : c ≠ '\n') :
    (ScanMode.text pending).step c = ([], .text (c :: pending)) := by
  unfold ScanMode.step
  simp [hquote, hbreak]

/-- Characters that complete no word are put to the pending ones. -/
theorem scan_pending (mode : List Char → ScanMode)
    (hstep : ∀ c ∈ text, c ≠ '\n' ∧ ∀ pending, (mode pending).step c = ([], mode (c :: pending)))
    (tail : List Char) :
    scan (mode pending) line (text ++ tail) = scan (mode (text.reverse ++ pending)) line tail := by
  induction text generalizing pending with
  | nil => rfl
  | cons c rest ih =>
    obtain ⟨hbreak, hc⟩ := hstep c List.mem_cons_self
    rw [List.cons_append, scan_cons, hc, if_neg hbreak, breakOf, if_neg hbreak,
      ih fun d hd => hstep d (List.mem_cons_of_mem _ hd), List.reverse_cons, List.append_assoc,
      List.singleton_append]
    simp [flushAll]

theorem scan_run (hrun : ∀ c ∈ text, endsWord c = false) (tail : List Char) :
    scan (.code pending) line (text ++ tail) = scan (.code (text.reverse ++ pending)) line tail := by
  apply scan_pending .code
  intro c hc
  refine ⟨?_, fun _ => step_code_of_run (hrun c hc)⟩
  intro hbreak
  have hends := hrun c hc
  rw [hbreak] at hends
  cases hends

theorem scan_inner {inner : List Char} (hinner : ∀ c ∈ inner, c ≠ '"' ∧ c ≠ '\n')
    (tail : List Char) :
    scan (.text pending) line (inner ++ tail) =
      scan (.text (inner.reverse ++ pending)) line tail := by
  apply scan_pending .text
  intro c hc
  obtain ⟨hquote, hbreak⟩ := hinner c hc
  exact ⟨hbreak, fun _ => step_text_of_inner hquote hbreak⟩

/-- A text that starts at the end of a word: with a blank, with a line break, or not at all. -/
def StartsApart (tail : List Char) : Prop :=
  ∀ c ∈ tail.head?, c = ' ' ∨ c = '\n'

theorem scan_apart (h : StartsApart tail) (pending : List Char) :
    scan (.code pending) line tail = (do
      let word ← flush line pending
      let later ← scan (.code []) line tail
      pure (word ++ later)) := by
  cases tail with
  | nil =>
    have hend (pending : List Char) : scan (.code pending) line [] = flush line pending := rfl
    simp [hend, flush_nil]
  | cons c rest =>
    have hstep (pending : List Char) :
        (ScanMode.code pending).step c = ([pending], .code []) := by
      rcases h c rfl with rfl | rfl <;> rfl
    rw [scan_cons, scan_cons, hstep, hstep]
    simp [flushAll, flush_nil, -bind_pure_comp]

/-- A text that is one word is cut off as one. -/
theorem scan_spelling (h : Word.IsSpelling text) (htail : StartsApart tail) :
    scan (.code []) line (text ++ tail) = (do
      let word ← flush line text.reverse
      let later ← scan (.code []) line tail
      pure (word ++ later)) := by
  cases h with
  | run hsome hrun =>
    rw [scan_run hrun, List.append_nil]
    exact scan_apart htail _
  | @mark c hmark =>
    have hstep : (ScanMode.code []).step c = ([[], [c]], .code []) := by
      rcases hmark with rfl | rfl | rfl <;> rfl
    have hbreak : c ≠ '\n' := by
      rcases hmark with rfl | rfl | rfl <;> decide
    rw [List.singleton_append, scan_cons, hstep, if_neg hbreak, breakOf, if_neg hbreak]
    simp [flushAll, flush_nil, -bind_pure_comp]
  | @quoted inner hinner =>
    -- The first quote opens the string, and the last one closes it.
    have hopen : (ScanMode.code []).step '"' = ([[]], .text ['"']) := rfl
    have hclose (pending : List Char) :
        (ScanMode.text pending).step '"' = (['"' :: pending], .code []) := rfl
    rw [List.append_assoc, List.cons_append, scan_cons, hopen]
    simp only [flushAll, flush_nil, pure_bind, List.append_nil, List.nil_append]
    rw [if_neg (by decide), scan_inner hinner, List.singleton_append, scan_cons, hclose]
    simp [flushAll, breakOf, -bind_pure_comp]

/-! ### Readable tokens -/

/-- The text of a token is one word, of the kind of the token. -/
structure Token.IsReadable (token : Token) : Prop where
  spelling : Word.IsSpelling token.sourceText.toList
  kind : Word.kind? token.sourceText.toList = some token.kind
  value : token.value = if token.kind.carriesText then some token.sourceText else none

/-- The spelling of a kind is a word of that kind. -/
theorem Kind.exists_symbol (hword : kind.isWord = true) (hplain : kind.carriesText = false) :
    ∃ symbol, kind.symbol? = some symbol ∧ Word.IsSpelling symbol.toList ∧
      Word.kind? symbol.toList = some kind := by
  cases kind with
  | dataType t => cases t <;> exact ⟨_, rfl, .of_any (by decide) (by decide), by decide⟩
  | assign => exact ⟨_, rfl, .of_any (by decide) (by decide), by decide⟩
  | operator o => cases o <;> exact ⟨_, rfl, .of_any (by decide) (by decide), by decide⟩
  | openParen | closeParen | comma => exact ⟨_, rfl, .mark (by decide), by decide⟩
  | keyword k => cases k <;> exact ⟨_, rfl, .of_any (by decide) (by decide), by decide⟩
  | comparison o => cases o <;> exact ⟨_, rfl, .of_any (by decide) (by decide), by decide⟩
  | connective o => cases o <;> exact ⟨_, rfl, .of_any (by decide) (by decide), by decide⟩
  | function f => cases f <;> exact ⟨_, rfl, .of_any (by decide) (by decide), by decide⟩
  | literal l => cases hplain
  | var v => cases hplain
  | lineBreak | endOfFile | phrase => cases hword

/-- A word that is classified gives a token that can be written down again. -/
theorem Token.isReadable_ofWord (hspelling : Word.IsSpelling text)
    (hkind : Word.kind? text = some kind) : (Token.ofWord kind text line).IsReadable := by
  cases htext : kind.carriesText with
  | true =>
    -- The token keeps the text, and is written with it.
    have htoken : Token.ofWord kind text line = ⟨kind, some (String.ofList text), line⟩ := by
      rw [Token.ofWord, if_pos htext]
    have hsource : (⟨kind, some (String.ofList text), line⟩ : Token).sourceText =
        String.ofList text := rfl
    rw [htoken]
    refine ⟨?_, ?_, ?_⟩
    · rw [hsource, String.toList_ofList]
      exact hspelling
    · rw [hsource, String.toList_ofList]
      exact hkind
    · show _ = if kind.carriesText then _ else _
      rw [if_pos htext, hsource]
  | false =>
    -- The token is written as its kind is spelled, whatever the text was.
    have htoken : Token.ofWord kind text line = ⟨kind, none, line⟩ := by
      rw [Token.ofWord, htext, if_neg Bool.false_ne_true]
    obtain ⟨symbol, hsymbol, hspelled, hsame⟩ :=
      Kind.exists_symbol (Word.isWord_of_kind? hkind) htext
    have hsource : (⟨kind, none, line⟩ : Token).sourceText = symbol := by
      have hword := Word.isWord_of_kind? hkind
      unfold Token.sourceText
      split
      · next h => cases h
      · split
        · next h =>
          have hbreak : kind = .lineBreak := h
          rw [hbreak] at hword
          cases hword
        · show kind.symbol?.getD "" = symbol
          rw [hsymbol]
          rfl
    rw [htoken]
    refine ⟨?_, ?_, ?_⟩
    · rw [hsource]
      exact hspelled
    · rw [hsource]
      exact hsame
    · show _ = if kind.carriesText then _ else _
      rw [htext]
      rfl

/-- A readable token is read from its text. -/
theorem Token.IsReadable.flush {token : Token} (h : token.IsReadable) :
    (flush token.line token.sourceText.toList.reverse).result = .ok [token] := by
  have hsame : Token.ofWord token.kind token.sourceText.toList token.line = token := by
    have hvalue := h.value
    rw [Token.ofWord, String.ofList_toList, ← hvalue]
  rw [result_flush (by simpa using h.spelling.ne_nil), List.reverse_reverse, h.kind]
  show Except.ok [Token.ofWord token.kind token.sourceText.toList token.line] = _
  rw [hsame]

/-! ### The words of a text -/

/-- What may be pending while a text is scanned. -/
def ScanMode.IsOpen : ScanMode → Prop
  | .code pending => ∀ c ∈ pending, endsWord c = false
  | .text pending => ∃ inner, pending.reverse = '"' :: inner ∧ ∀ c ∈ inner, c ≠ '"' ∧ c ≠ '\n'
  | .comment => True

/-- A text whose first character starts no fixed spelling is none. -/
theorem Kind.ofSpelling?_of_head {first : Char}
    (hsymbol : ∀ kind ∈ all, ∀ symbol ∈ kind.symbol?, symbol.toList.head? ≠ some first)
    (halternate : ∀ entry ∈ alternateSpellings, entry.1.toList.head? ≠ some first)
    (rest : List Char) : ofSpelling? (String.ofList (first :: rest)) = none := by
  have hother (spelling : String) (hfirst : spelling.toList.head? ≠ some first) :
      spelling ≠ String.ofList (first :: rest) := by
    intro h
    rw [h, String.toList_ofList] at hfirst
    exact hfirst rfl
  unfold ofSpelling?
  rw [Option.or_eq_none_iff, List.find?_eq_none, List.lookup_eq_none_iff]
  constructor
  · intro kind hkind
    rw [beq_iff_eq]
    intro h
    exact hother _ (hsymbol kind hkind _ h) rfl
  · intro entry hentry
    rw [bne_iff_ne]
    exact (hother entry.1 (halternate entry hentry)).symm

/-- No fixed spelling starts with a quote. -/
theorem Kind.ofSpelling?_of_quote (rest : List Char) :
    ofSpelling? (String.ofList ('"' :: rest)) = none :=
  ofSpelling?_of_head (by decide) (by decide) rest

theorem Word.isCharLiteral_of_quote (rest : List Char) : isCharLiteral ('"' :: rest) = false := by
  unfold isCharLiteral
  split
  · next h =>
    cases h
    rfl
  · rfl

/-- A text that starts with no digit, no letter and not with the array mark has the shape of a text
    between apostrophes or quotes, or none. -/
theorem Word.shape?_of_head {first : Char} (hdigit : first.isDigit = false)
    (hletter : isLetter first = false) (hmark : first ≠ '@') (rest : List Char) :
    shape? (first :: rest) =
      if isCharLiteral (first :: rest) then some (.literal .char)
      else if isStringLiteral (first :: rest) then some (.literal .string)
      else none := by
  have hdigits (word : List Char) : isDigits (first :: word) = false := by
    simp [isDigits, hdigit]
  have hfloat : isFloatLiteral (first :: rest) = false := by
    unfold isFloatLiteral
    split
    · by_cases hpoint : first = '.'
      · simp [isDigits, hpoint]
      · simp [hdigits, hpoint]
    · rfl
  have hmarked (mark : Char) (isDigit : Char → Bool) :
      isMarkedLiteral mark isDigit (first :: rest) = false := by
    unfold isMarkedLiteral
    split
    · next h =>
      rw [(List.cons.inj h).1] at hdigit
      cases hdigit
    · rfl
  have hscalar : isScalar (first :: rest) = false := by
    unfold isScalar
    split
    · next h =>
      rw [← (List.cons.inj h).1]
      exact hletter
    · next h =>
      rw [← (List.cons.inj h).1, hletter]
      rfl
    · rfl
  have harray : isArray (first :: rest) = false := by
    unfold isArray
    split
    · next h => exact absurd (List.cons.inj h).1 hmark
    · rfl
  simp only [shape?, hdigits, hfloat, hmarked, hscalar, harray, Bool.false_eq_true, if_false]

/-- What starts with a quote has the shape of a string, or none. -/
theorem Word.shape?_of_quote {rest : List Char} (hquote : '"' ∉ rest) :
    shape? ('"' :: rest) = none := by
  have hstring : isStringLiteral ('"' :: rest) = false := by
    show (rest.getLast? == some '"') = false
    rw [beq_eq_false_iff_ne]
    intro h
    exact hquote (List.mem_of_getLast? h)
  rw [shape?_of_head (by decide) (by decide) (by decide), isCharLiteral_of_quote, hstring]
  rfl

/-- A string that is not closed is no word of the language. -/
theorem Word.kind?_of_unclosed {inner : List Char} (hinner : ∀ c ∈ inner, c ≠ '"' ∧ c ≠ '\n') :
    kind? ('"' :: inner) = none := by
  have hupper : Text.upcase ('"' :: inner) = '"' :: Text.upcase inner := rfl
  have hquote : '"' ∉ Text.upcase inner := by
    intro h
    exact (hinner _ (Text.quote_mem_of_upcase h)).1 rfl
  unfold kind? classify
  rw [hupper, Kind.ofSpelling?_of_quote, shape?_of_quote hquote]
  rfl

/-- What is cut off as a word, last character first: nothing, a spelling, or no word of the
    language. -/
def Word.IsCut (pending : List Char) : Prop :=
  pending = [] ∨ IsSpelling pending.reverse ∨ kind? pending.reverse = none

theorem ScanMode.IsOpen.isCut (h : mode.IsOpen) : Word.IsCut mode.pending := by
  cases mode with
  | comment => exact .inl rfl
  | code pending =>
    by_cases hsome : pending = []
    · exact .inl hsome
    · have hreverse : pending.reverse ≠ [] := by
        simpa using hsome
      refine .inr (.inl (.run hreverse ?_))
      intro c hc
      exact h c (List.mem_reverse.1 hc)
  | text pending =>
    obtain ⟨inner, hpending, hinner⟩ := h
    refine .inr (.inr ?_)
    show Word.kind? pending.reverse = none
    rw [hpending]
    exact Word.kind?_of_unclosed hinner

/-- What a character does to the pending word. -/
theorem ScanMode.IsOpen.step (h : mode.IsOpen) (c : Char) :
    (∀ word ∈ (mode.step c).1, Word.IsCut word) ∧ (mode.step c).2.IsOpen := by
  have hfresh : (ScanMode.code []).IsOpen := nofun
  have hpending := h.isCut
  unfold ScanMode.step
  by_cases hbreak : c = '\n'
  · rw [if_pos hbreak]
    exact ⟨by simpa using hpending, hfresh⟩
  rw [if_neg hbreak]
  cases mode with
  | comment => exact ⟨nofun, trivial⟩
  | text pending =>
    obtain ⟨inner, hinner, hall⟩ := h
    by_cases hquote : c = '"'
    · -- The string is closed.
      simp only [if_pos hquote]
      refine ⟨?_, hfresh⟩
      intro word hword
      have hclosed : word.reverse = '"' :: inner ++ ['"'] := by
        rw [List.mem_singleton.1 hword, List.reverse_cons, hinner, hquote]
      right
      left
      rw [hclosed]
      exact .quoted hall
    · simp only [if_neg hquote]
      refine ⟨nofun, inner ++ [c], ?_, ?_⟩
      · rw [List.reverse_cons, hinner, List.cons_append]
      · intro d hd
        rcases List.mem_append.1 hd with hd | hd
        · exact hall d hd
        · rw [List.mem_singleton.1 hd]
          exact ⟨hquote, hbreak⟩
  | code pending =>
    simp only
    have hone : ∀ word ∈ [pending], Word.IsCut word := by
      intro word hword
      rw [List.mem_singleton.1 hword]
      exact hpending
    split
    · exact ⟨hone, trivial⟩
    next hcomment =>
    split
    · exact ⟨hone, hfresh⟩
    next hblank =>
    split
    · next hmark =>
      refine ⟨?_, hfresh⟩
      intro word hword
      rcases List.mem_cons.1 hword with rfl | hword
      · exact hpending
      · rw [List.mem_singleton.1 hword]
        exact .inr (.inl (.mark hmark))
    next hmark =>
    split
    · next hquote =>
      refine ⟨hone, [], ?_, nofun⟩
      rw [hquote]
      rfl
    next hquote =>
    refine ⟨nofun, ?_⟩
    intro d hd
    rcases List.mem_cons.1 hd with rfl | hd
    · simp only [not_or] at hblank hmark
      simp [endsWord, hbreak, hcomment, hblank, hmark, hquote]
    · exact h d hd

theorem isReadable_of_flush (hword : Word.IsCut pending)
    (h : (flush line pending).result = .ok tokens) : ∀ t ∈ tokens, t.IsReadable := by
  intro t ht
  obtain ⟨hsome, kind, hkind, rfl⟩ := exists_kind_of_flush h t ht
  rcases hword with hnil | hspelling | hnone
  · exact absurd hnil hsome
  · exact Token.isReadable_ofWord hspelling hkind
  · rw [hkind] at hnone
    cases hnone

/-- The tokens of a text are line breaks and words that can be written down again. -/
theorem isReadable_of_scan (hmode : mode.IsOpen) (h : (scan mode line text).result = .ok tokens) :
    ∀ t ∈ tokens, t = .lineBreak t.line ∨ t.IsReadable := by
  induction text generalizing mode line tokens with
  | nil =>
    intro t ht
    exact .inr (isReadable_of_flush hmode.isCut h t ht)
  | cons c rest ih =>
    rw [scan_cons] at h
    obtain ⟨words, hwords, h⟩ := Logged.result_bind_eq_ok.1 h
    obtain ⟨later, hlater, h⟩ := Logged.result_bind_eq_ok.1 h
    cases h
    obtain ⟨hstep, hopen⟩ := hmode.step c
    intro t ht
    rcases List.mem_append.1 ht with ht | ht
    · rcases List.mem_append.1 ht with ht | ht
      · have hreadable := forall_of_flushAll
          (fun word hword _ => isReadable_of_flush (hstep word hword)) hwords
        exact .inr (hreadable t ht)
      · -- What is left is the line break that the character may be.
        unfold breakOf at ht
        split at ht
        · rw [List.mem_singleton.1 ht]
          exact .inl rfl
        · cases ht
    · exact ih hopen hlater t ht

/-- So are those of a program, up to the token that ends it. -/
theorem isReadable_of_tokenize {source : String} {body : List Token} {ending : Token}
    (h : tokenize source = .ok (body ++ [ending])) :
    ∀ t ∈ body, t = .lineBreak t.line ∨ t.IsReadable := by
  obtain ⟨scanned, hscanned, htokens⟩ := tokenize_eq_ok_iff.1 h
  obtain rfl := List.append_inj_left' htokens rfl
  have hfresh : (ScanMode.code []).IsOpen := nofun
  intro t ht
  exact isReadable_of_scan hfresh hscanned t (mem_of_mem_trimLineBreaks ht)

end CalcLang
