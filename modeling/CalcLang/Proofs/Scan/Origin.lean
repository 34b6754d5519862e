import CalcLang.Proofs.Scan.Placement
import CalcLang.Proofs.Scan.Shapes
import Mathlib

/-! # Where tokens come from

    Every character of a text is part of a word or of a comment, or it is a blank or a line break.  A
    token is on the line that the line breaks before its word put it on.

    * `Cutting`: a text behind another one is cut into the words of some tokens.
    * `cutting_of_scan`: the tokens of a text are cut from it.
    * `Word.exists_inner_of_string`: a word that is a string is a text between two quotes.
    * `IsProgramRow`: what the readers of a program rely on.
    * `isProgramRow_of_tokenize`: the tokens of a program are such a row. -/

namespace CalcLang

variable {before text rest pending word : List Char} {tokens words later : List Token}
  {mode : ScanMode} {kind : Kind} {line : Nat} {c : Char}

/-! ### Lines of a text -/

theorem lastLine_append (before more : List Char) :
    lastLine (before ++ more) = lastLine before + more.count '\n' := by
  unfold lastLine
  rw [List.count_append, Nat.add_assoc]

theorem lastLine_append_of_notMem (h : '\n' ∉ text) :
    lastLine (before ++ text) = lastLine before := by
  rw [lastLine_append, List.count_eq_zero_of_not_mem h, Nat.add_zero]

theorem notMem_break_of_run (hrun : ∀ c ∈ word, endsWord c = false) : '\n' ∉ word := by
  intro hbreak
  cases hrun _ hbreak

/-! ### Cutting a text -/

/-- A word reaches no further: it is closed by its last character, or the text behind it starts with
    a character that ends words. -/
def Word.EndsBefore (word rest : List Char) : Prop :=
  (∀ c ∈ word, endsWord c = false) → ∀ c ∈ rest.head?, endsWord c = true

/-- `Cutting before text tokens`: the text that stands behind `before` is cut into the words and the
    line breaks that `tokens` are, in their order, with blanks and comments between them. -/
inductive Cutting : List Char → List Char → List Token → Prop
  /-- There is nothing to cut. -/
  | nil (before : List Char) : Cutting before [] []
  /-- A blank belongs to no token. -/
  | blank {before rest : List Char} {c : Char} {tokens : List Token}
    (hblank : c = ' ' ∨ c = '\t' ∨ c = '\r') (hrest : Cutting (before ++ [c]) rest tokens) :
    Cutting before (c :: rest) tokens
  /-- A comment runs to the end of its line. -/
  | comment {before inner rest : List Char} {tokens : List Token} (hinner : '\n' ∉ inner)
    (hend : ∀ c ∈ rest.head?, c = '\n') (hrest : Cutting (before ++ '#' :: inner) rest tokens) :
    Cutting before ('#' :: (inner ++ rest)) tokens
  /-- The token of a line break is on the line that ends there. -/
  | lineBreak {before rest : List Char} {tokens : List Token}
    (hrest : Cutting (before ++ ['\n']) rest tokens) :
    Cutting before ('\n' :: rest) (.lineBreak (lastLine before) :: tokens)
  /-- The token of a word is on the line of its first character. -/
  | word {before word rest : List Char} {kind : Kind} {tokens : List Token}
    (hspelling : Word.IsSpelling word) (hkind : Word.kind? word = some kind)
    (hends : Word.EndsBefore word rest) (hrest : Cutting (before ++ word) rest tokens) :
    Cutting before (word ++ rest) (.ofWord kind word (lastLine before) :: tokens)

/-- The pending characters are no word, or they are one word of some kind. -/
theorem eq_of_flush (h : (flush line pending).result = .ok tokens) :
    pending = [] ∧ tokens = [] ∨ pending ≠ [] ∧ ∃ kind, Word.kind? pending.reverse = some kind ∧
      tokens = [.ofWord kind pending.reverse line] := by
  by_cases hsome : pending = []
  · rw [hsome] at h
    cases h
    exact .inl ⟨hsome, rfl⟩
  · rw [result_flush hsome] at h
    cases hkind : Word.kind? pending.reverse with
    | none =>
      rw [hkind] at h
      cases h
    | some kind =>
      rw [hkind] at h
      cases h
      exact .inr ⟨hsome, kind, rfl, rfl⟩

/-- Pending characters are cut off where a character ends words. -/
theorem Cutting.flush (hrun : ∀ c ∈ pending, endsWord c = false)
    (hflush : (CalcLang.flush (lastLine before) pending).result = .ok words)
    (hnext : ∀ c ∈ rest.head?, endsWord c = true)
    (hrest : Cutting (before ++ pending.reverse) rest later) :
    Cutting before (pending.reverse ++ rest) (words ++ later) := by
  obtain ⟨rfl, rfl⟩ | ⟨hsome, kind, hkind, rfl⟩ := eq_of_flush hflush
  · rw [List.reverse_nil, List.append_nil] at hrest
    exact hrest
  · have hspelling : Word.IsSpelling pending.reverse := by
      apply Word.IsSpelling.run
      · rw [Ne, List.reverse_eq_nil_iff]
        exact hsome
      · intro c hc
        exact hrun c (List.mem_reverse.1 hc)
    exact .word hspelling hkind (fun _ => hnext) hrest

/-- A word that its last character closes is cut off whatever follows it. -/
theorem Cutting.closed (hspelling : Word.IsSpelling word) (hclosed : ∃ c ∈ word, endsWord c = true)
    (hflush : (CalcLang.flush (lastLine before) word.reverse).result = .ok words)
    (hrest : Cutting (before ++ word) rest later) :
    Cutting before (word ++ rest) (words ++ later) := by
  obtain ⟨hnil, -⟩ | ⟨-, kind, hkind, rfl⟩ := eq_of_flush hflush
  · exact absurd (List.reverse_eq_nil_iff.1 hnil) hspelling.ne_nil
  · rw [List.reverse_reverse] at hkind ⊢
    refine .word hspelling hkind ?_ hrest
    intro hrun
    obtain ⟨c, hc, hends⟩ := hclosed
    rw [hrun c hc] at hends
    cases hends

/-- What a mode has read of a word is cut off with the text behind it; what it has read of a comment
    is part of no token. -/
def ScanMode.Cutting (before text : List Char) (tokens : List Token) : ScanMode → Prop
  | .code pending | .text pending => CalcLang.Cutting before (pending.reverse ++ text) tokens
  | .comment => ∃ inner rest, text = inner ++ rest ∧ '\n' ∉ inner ∧
      (∀ c ∈ rest.head?, c = '\n') ∧ CalcLang.Cutting (before ++ inner) rest tokens

/-- No string is open where a line ends. -/
theorem flush_ne_ok_of_isOpen (hmode : (ScanMode.text pending).IsOpen) :
    (flush line pending).result ≠ .ok tokens := by
  obtain ⟨inner, hpending, hinner⟩ := hmode
  intro h
  obtain ⟨hnil, -⟩ | ⟨-, kind, hkind, -⟩ := eq_of_flush h
  · rw [hnil] at hpending
    cases hpending
  · rw [hpending, Word.kind?_of_unclosed hinner] at hkind
    cases hkind

/-! ### Scanning -/

theorem result_flushAll_singleton (line : Nat) (pending : List Char) :
    (flushAll line [pending]).result = (flush line pending).result := by
  simp [flushAll]

/-- A line break ends the word before it, and a comment; no string is open before it. -/
theorem ScanMode.IsOpen.cutting_break (hmode : mode.IsOpen)
    (hwords : (flush (lastLine before) mode.pending).result = .ok words)
    (hlater : ∀ before', lastLine before' = lastLine before + 1 →
      CalcLang.Cutting before' rest later) :
    mode.Cutting before ('\n' :: rest) (words ++ .lineBreak (lastLine before) :: later) := by
  have hbreak (read : List Char) (hread : '\n' ∉ read) :
      CalcLang.Cutting (before ++ read) ('\n' :: rest) (.lineBreak (lastLine before) :: later) := by
    have hsame : lastLine (before ++ read) = lastLine before := lastLine_append_of_notMem hread
    rw [← hsame]
    apply Cutting.lineBreak
    apply hlater
    rw [lastLine_append, hsame]
    rfl
  cases mode with
  | code pending =>
    have hread : '\n' ∉ pending.reverse := by
      rw [List.mem_reverse]
      exact notMem_break_of_run hmode
    refine Cutting.flush hmode hwords ?_ (hbreak _ hread)
    intro c hc
    cases hc
    rfl
  | text pending => exact absurd hwords (flush_ne_ok_of_isOpen hmode)
  | comment =>
    cases hwords
    refine ⟨[], '\n' :: rest, rfl, List.not_mem_nil, ?_, hbreak [] List.not_mem_nil⟩
    intro c hc
    cases hc
    rfl

/-- A character that is no line break, outside of strings and comments. -/
theorem cutting_code_cons (hmode : (ScanMode.code pending).IsOpen) (hc : c ≠ '\n')
    (hwords : (flushAll (lastLine before) ((ScanMode.code pending).step c).1).result = .ok words)
    (hlater : ∀ before', lastLine before' = lastLine before →
      ((ScanMode.code pending).step c).2.Cutting before' rest later) :
    Cutting before (pending.reverse ++ c :: rest) (words ++ later) := by
  have hread : '\n' ∉ pending.reverse := by
    rw [List.mem_reverse]
    exact notMem_break_of_run hmode
  have hline (more : List Char) (hmore : '\n' ∉ more) :
      lastLine (before ++ pending.reverse ++ more) = lastLine before := by
    rw [lastLine_append_of_notMem hmore, lastLine_append_of_notMem hread]
  have hone : '\n' ∉ [c] := by
    rw [List.mem_singleton]
    exact hc.symm
  have hcut (hends : endsWord c = true) : ∀ d ∈ (c :: rest).head?, endsWord d = true := by
    intro d hd
    cases hd
    exact hends
  unfold ScanMode.step at hwords hlater
  simp only [if_neg hc] at hwords hlater
  by_cases hcomment : c = '#'
  · simp only [if_pos hcomment, result_flushAll_singleton] at hwords hlater
    obtain ⟨inner, behind, rfl, hinner, hend, hbehind⟩ := hlater _ (hline [c] hone)
    rw [hcomment] at hcut ⊢
    refine Cutting.flush hmode hwords (hcut rfl) (.comment hinner hend ?_)
    rw [hcomment, List.append_assoc, List.singleton_append] at hbehind
    exact hbehind
  simp only [if_neg hcomment] at hwords hlater
  by_cases hblank : c = ' ' ∨ c = '\t' ∨ c = '\r'
  · simp only [if_pos hblank, result_flushAll_singleton] at hwords hlater
    have hends : endsWord c = true := by
      obtain rfl | rfl | rfl := hblank <;> rfl
    exact Cutting.flush hmode hwords (hcut hends) (.blank hblank (hlater _ (hline [c] hone)))
  simp only [if_neg hblank] at hwords hlater
  by_cases hmark : c = '(' ∨ c = ')' ∨ c = ','
  · simp only [if_pos hmark] at hwords hlater
    obtain ⟨first, hfirst, hwords⟩ := Logged.result_bind_eq_ok.1 hwords
    obtain ⟨mark, hmarked, hwords⟩ := Logged.result_bind_eq_ok.1 hwords
    cases hwords
    rw [result_flushAll_singleton] at hmarked
    have hends : endsWord c = true := by
      obtain rfl | rfl | rfl := hmark <;> rfl
    have hspelling : Word.IsSpelling [c] := .mark hmark
    rw [List.append_assoc]
    refine Cutting.flush hmode hfirst (hcut hends) ?_
    refine Cutting.closed hspelling ⟨c, List.mem_singleton_self c, hends⟩ ?_
      (hlater _ (hline [c] hone))
    rw [lastLine_append_of_notMem hread]
    exact hmarked
  simp only [if_neg hmark] at hwords hlater
  by_cases hquote : c = '"'
  · simp only [if_pos hquote, result_flushAll_singleton] at hwords hlater
    have hends : endsWord c = true := by
      rw [hquote]
      rfl
    refine Cutting.flush hmode hwords (hcut hends) ?_
    have hopened := hlater _ (lastLine_append_of_notMem hread)
    exact hopened
  · -- The character belongs to the pending word.
    simp only [if_neg hquote] at hwords hlater
    cases hwords
    have hsame : pending.reverse ++ c :: rest = (c :: pending).reverse ++ rest := by
      rw [List.reverse_cons, List.append_assoc, List.singleton_append]
    rw [hsame]
    exact hlater before rfl

/-- A character that is no line break, in a string. -/
theorem cutting_text_cons (hmode : (ScanMode.text pending).IsOpen) (hc : c ≠ '\n')
    (hwords : (flushAll (lastLine before) ((ScanMode.text pending).step c).1).result = .ok words)
    (hlater : ∀ before', lastLine before' = lastLine before →
      ((ScanMode.text pending).step c).2.Cutting before' rest later) :
    Cutting before (pending.reverse ++ c :: rest) (words ++ later) := by
  unfold ScanMode.step at hwords hlater
  simp only [if_neg hc] at hwords hlater
  have hsame : pending.reverse ++ c :: rest = (c :: pending).reverse ++ rest := by
    rw [List.reverse_cons, List.append_assoc, List.singleton_append]
  rw [hsame]
  by_cases hquote : c = '"'
  · -- The quote closes the string.
    simp only [if_pos hquote, result_flushAll_singleton] at hwords hlater
    obtain ⟨inner, hpending, hinner⟩ := hmode
    have hword : (c :: pending).reverse = '"' :: inner ++ ['"'] := by
      rw [List.reverse_cons, hpending, hquote]
    have hread : '\n' ∉ (c :: pending).reverse := by
      rw [hword]
      intro hbreak
      rcases List.mem_append.1 hbreak with hbreak | hbreak
      · rcases List.mem_cons.1 hbreak with hbreak | hbreak
        · cases hbreak
        · exact (hinner _ hbreak).2 rfl
      · cases List.mem_singleton.1 hbreak
    have hspelling : Word.IsSpelling (c :: pending).reverse := by
      rw [hword]
      exact .quoted hinner
    refine Cutting.closed hspelling ⟨'"', ?_, rfl⟩ ?_ (hlater _ (lastLine_append_of_notMem hread))
    · rw [hword]
      exact List.mem_cons_self
    · rw [List.reverse_reverse]
      exact hwords
  · simp only [if_neg hquote] at hwords hlater
    cases hwords
    exact hlater before rfl

/-- The tokens of a text are cut from it, line breaks and all. -/
theorem cutting_of_scan (hmode : mode.IsOpen)
    (h : (scan mode (lastLine before) text).result = .ok tokens) :
    mode.Cutting before text tokens := by
  -- The induction is on the text; what was read of a word stays in front of it until it is cut off.
  induction text generalizing mode before tokens with
  | nil =>
    cases mode with
    | code pending =>
      have hend : ∀ c ∈ ([] : List Char).head?, endsWord c = true := nofun
      have hnil := Cutting.flush hmode h hend (.nil _)
      rw [List.append_nil tokens] at hnil
      exact hnil
    | text pending => exact absurd h (flush_ne_ok_of_isOpen hmode)
    | comment =>
      cases h
      exact ⟨[], [], rfl, List.not_mem_nil, nofun, .nil _⟩
  | cons c rest ih =>
    rw [scan_cons] at h
    obtain ⟨words, hwords, h⟩ := Logged.result_bind_eq_ok.1 h
    obtain ⟨later, hlater, h⟩ := Logged.result_bind_eq_ok.1 h
    cases h
    have hopen := (hmode.step c).2
    unfold breakOf
    by_cases hc : c = '\n'
    · obtain rfl := hc
      have hstep : mode.step '\n' = ([mode.pending], .code []) := rfl
      rw [hstep] at hwords hlater hopen
      rw [result_flushAll_singleton] at hwords
      rw [if_pos rfl, List.append_assoc, List.singleton_append]
      refine hmode.cutting_break hwords ?_
      intro before' hline
      rw [if_pos rfl, ← hline] at hlater
      exact ih hopen hlater
    · rw [if_neg hc] at hlater ⊢
      rw [List.append_nil]
      have hrest : ∀ before', lastLine before' = lastLine before →
          (mode.step c).2.Cutting before' rest later := by
        intro before' hline
        rw [← hline] at hlater
        exact ih hopen hlater
      cases mode with
      | code pending => exact cutting_code_cons hmode hc hwords hrest
      | text pending => exact cutting_text_cons hmode hc hwords hrest
      | comment =>
        -- A comment goes on with any other character.
        have hstep : ScanMode.comment.step c = ([], .comment) := by
          unfold ScanMode.step
          rw [if_neg hc]
        rw [hstep] at hwords hrest
        cases hwords
        have hone : '\n' ∉ [c] := by
          rw [List.mem_singleton]
          exact Ne.symm hc
        obtain ⟨inner, behind, rfl, hinner, hend, hbehind⟩ :=
          hrest _ (lastLine_append_of_notMem hone)
        refine ⟨c :: inner, behind, rfl, ?_, hend, ?_⟩
        · rw [List.mem_cons, not_or]
          exact ⟨Ne.symm hc, hinner⟩
        · rw [List.append_assoc, List.singleton_append] at hbehind
          exact hbehind

/-! ### What a token carries -/

/-- A word that is a string is a text between two quotes, on one line. -/
theorem Word.exists_inner_of_string (hspelling : IsSpelling word)
    (hkind : kind? word = some (.literal .string)) :
    ∃ inner, word = '"' :: inner ++ ['"'] ∧ ∀ c ∈ inner, c ≠ '"' ∧ c ≠ '\n' := by
  -- A string has a quote in upper case, so it had one before.
  have hshape : isStringLiteral (Text.upcase word) = true := hasShape_of_kind? hkind
  have hquote : '"' ∈ word := by
    apply Text.quote_mem_of_upcase
    unfold isStringLiteral at hshape
    split at hshape
    · next heq =>
      rw [heq]
      exact List.mem_cons_self
    · cases hshape
  cases hspelling with
  | run hsome hrun => cases hrun _ hquote
  | mark hmark =>
    obtain rfl := List.mem_singleton.1 hquote
    simp at hmark
  | @quoted inner hinner => exact ⟨inner, rfl, hinner⟩

/-- What a token carries fits its kind. -/
structure Token.IsFaithful (token : Token) : Prop where
  /-- A token does not stand for a part of the program as a whole. -/
  scanned : ∀ phrase, token.kind ≠ .phrase phrase
  /-- It has a text if its kind keeps one. -/
  valued : token.value.isSome = token.kind.carriesText
  /-- Its text is a word of its kind. -/
  classified : ∀ value ∈ token.value, Word.kind? value.toList = some token.kind
  /-- A string is closed on its line, by its second quote. -/
  quoted : token.kind = .literal .string → ∀ value ∈ token.value,
    ∃ inner, value.toList = '"' :: inner ++ ['"'] ∧ ∀ c ∈ inner, c ≠ '"' ∧ c ≠ '\n'

/-- A token without a text is faithful if its kind keeps none. -/
theorem Token.isFaithful_plain (hscanned : ∀ phrase, kind ≠ .phrase phrase)
    (htext : kind.carriesText = false) : (Token.plain kind line).IsFaithful where
  scanned := hscanned
  valued := htext.symm
  classified := nofun
  quoted _ := nofun

theorem Token.isFaithful_ofWord (hspelling : Word.IsSpelling word)
    (hkind : Word.kind? word = some kind) : (Token.ofWord kind word line).IsFaithful := by
  have hvalue {value : String} (h : value ∈ (Token.ofWord kind word line).value) :
      value.toList = word := by
    unfold Token.ofWord at h
    rw [Option.mem_ite_none_right] at h
    obtain rfl := Option.some.inj h.2
    exact String.toList_ofList
  refine ⟨?_, ?_, ?_, ?_⟩
  · intro phrase hphrase
    have hword := Word.isWord_of_kind? hkind
    have hsame : kind = .phrase phrase := hphrase
    rw [hsame] at hword
    cases hword
  · show (if kind.carriesText then some (String.ofList word) else none).isSome = kind.carriesText
    cases kind.carriesText <;> rfl
  · intro value h
    rw [hvalue h]
    exact hkind
  · intro hstring value h
    have hsame : kind = .literal .string := hstring
    rw [hsame] at hkind
    rw [hvalue h]
    exact Word.exists_inner_of_string hspelling hkind

theorem Cutting.isFaithful (h : Cutting before text tokens) : ∀ t ∈ tokens, t.IsFaithful := by
  induction h with
  | nil => nofun
  | blank hblank hrest ih => exact ih
  | comment hinner hend hrest ih => exact ih
  | lineBreak hrest ih =>
    rw [List.forall_mem_cons]
    exact ⟨Token.isFaithful_plain (fun _ => nofun) rfl, ih⟩
  | word hspelling hkind hends hrest ih =>
    rw [List.forall_mem_cons]
    exact ⟨Token.isFaithful_ofWord hspelling hkind, ih⟩

/-! ### From line to line -/

theorem isLineBreak_iff {token : Token} : token.isLineBreak = true ↔ token.kind = .lineBreak := by
  unfold Token.isLineBreak
  exact beq_iff_eq

theorem StandOn.sorted (h : StandOn line tokens) : tokens.Pairwise fun t u => t.line ≤ u.line := by
  induction tokens generalizing line with
  | nil => exact .nil
  | cons token rest ih =>
    obtain ⟨hline, hrest⟩ := h
    refine .cons ?_ (ih hrest)
    intro u hu
    have hbound := hrest.line_mem u hu
    omega

theorem StandOn.chained (h : StandOn line tokens) : tokens.IsChain fun t u =>
    u.line = if t.kind = .lineBreak then t.line + 1 else t.line := by
  induction tokens generalizing line with
  | nil => exact .nil
  | cons token rest ih =>
    obtain ⟨hline, hrest⟩ := h
    cases rest with
    | nil => exact .singleton token
    | cons next rest =>
      refine .cons_cons ?_ (ih hrest)
      rw [hrest.1, hline]
      by_cases hbreak : token.kind = .lineBreak
      · rw [if_pos hbreak, if_pos (isLineBreak_iff.2 hbreak)]
      · rw [if_neg hbreak, if_neg (mt isLineBreak_iff.1 hbreak)]
        rfl

/-! ### Programs -/

/-- What the readers of a program rely on: how its tokens are delimited, what they carry and on which
    lines they are. -/
structure IsProgramRow (text : List Char) (tokens : List Token) : Prop where
  /-- The last token ends the program, and no other one does. -/
  ending : ∃ body ending, tokens = body ++ [ending] ∧ ending.kind = .endOfFile ∧
    ∀ t ∈ body, t.kind ≠ .endOfFile
  /-- There is no line break in front. -/
  first : ∀ t ∈ tokens.head?, t.kind ≠ .lineBreak
  /-- There is no line break before the token that ends the program. -/
  last : ∀ t ∈ tokens.dropLast.getLast?, t.kind ≠ .lineBreak
  /-- The tokens carry what they should. -/
  faithful : ∀ t ∈ tokens, t.IsFaithful
  /-- The lines never decrease. -/
  sorted : tokens.Pairwise fun t u => t.line ≤ u.line
  /-- Only a line break, and the end of the program, takes to another line. -/
  chained : tokens.IsChain fun t u => u.kind = .endOfFile ∨
    u.line = if t.kind = .lineBreak then t.line + 1 else t.line
  /-- The tokens are those that the text is cut into, without the line breaks at both ends: the line
      of each is the last line of the text before its word. -/
  placed : ∃ lead body trail, AreBreaks lead ∧ AreBreaks trail ∧
    Cutting [] text (lead ++ (body ++ trail)) ∧ tokens = body ++ [.endOfFile (lastLine text)]

/-- The tokens of a program are as its readers assume, whatever its text is. -/
theorem isProgramRow_of_tokenize {source : String} {tokens : List Token}
    (h : tokenize source = .ok tokens) : IsProgramRow source.toList tokens := by
  obtain ⟨scanned, hscanned, htokens⟩ := tokenize_eq_ok_iff.1 h
  obtain ⟨body, first, hbody, htrimmed, hinside, hstand, -, hlast⟩ := exists_body_of_tokenize h
  obtain ⟨-, lead, trail, hlead, htrail, hall⟩ := exists_breaks_trimLineBreaks scanned
  obtain rfl := List.append_inj_left' (hbody.symm.trans htokens) rfl
  have hopen : (ScanMode.code []).IsOpen := nofun
  have hcut : Cutting [] source.toList scanned := cutting_of_scan hopen hscanned
  have hfaithful := hcut.isFaithful
  rw [hall] at hcut
  rw [hbody]
  refine
    { ending := ⟨_, _, rfl, rfl, ?_⟩
      first := ?_
      last := ?_
      faithful := ?_
      sorted := ?_
      chained := ?_
      placed := ⟨lead, _, trail, hlead, htrail, hcut, rfl⟩ }
  · intro t ht hkind
    have hword := hinside t ht
    rw [hkind] at hword
    cases hword
  · intro t ht hkind
    rw [List.head?_append, Option.mem_def, Option.or_eq_some_iff] at ht
    obtain ht | ⟨-, ht⟩ := ht
    · have hfirst := htrimmed.first t ht
      rw [isLineBreak_iff.2 hkind] at hfirst
      cases hfirst
    · -- Nothing but the end of the program is left.
      cases ht
      cases hkind
  · intro t ht hkind
    rw [List.dropLast_concat] at ht
    have hend := htrimmed.last t ht
    rw [isLineBreak_iff.2 hkind] at hend
    cases hend
  · intro t ht
    rcases List.mem_append.1 ht with ht | ht
    · exact hfaithful t (mem_of_mem_trimLineBreaks ht)
    · rw [List.mem_singleton.1 ht]
      exact Token.isFaithful_plain (fun _ => nofun) rfl
  · rw [List.pairwise_append]
    refine ⟨hstand.sorted, List.pairwise_singleton _ _, ?_⟩
    intro t ht u hu
    obtain rfl := List.mem_singleton.1 hu
    exact (hstand.line_mem t ht).2.trans hlast
  · rw [List.isChain_append]
    refine ⟨hstand.chained.imp fun _ _ => .inr, .singleton _, ?_⟩
    intro t ht u hu
    cases hu
    exact .inl rfl

/-- A program with a comment, a blank line and a string, and line breaks at both ends. -/
theorem isProgramRow_greeting :
    tokenize "\nA -> 1 # one\n\nDISPSTR \"hi, a\"\n" = .ok
      [⟨.var .scalar, some "A", 2⟩, ⟨.assign, none, 2⟩, ⟨.literal .int, some "1", 2⟩,
        .lineBreak 2, .lineBreak 3, ⟨.keyword .dispStr, none, 4⟩,
        ⟨.literal .string, some "\"hi, a\"", 4⟩, .endOfFile 5] ∧
    IsProgramRow "\nA -> 1 # one\n\nDISPSTR \"hi, a\"\n".toList
      [⟨.var .scalar, some "A", 2⟩, ⟨.assign, none, 2⟩, ⟨.literal .int, some "1", 2⟩,
        .lineBreak 2, .lineBreak 3, ⟨.keyword .dispStr, none, 4⟩,
        ⟨.literal .string, some "\"hi, a\"", 4⟩, .endOfFile 5] :=
  ⟨by cbv, isProgramRow_of_tokenize (by cbv)⟩

end CalcLang
