import CalcLang.Proofs.Scan.BlankLine
import CalcLang.Proofs.Scan.Locality
import CalcLang.Proofs.Scan.Spelling
import CalcLang.View.Highlight
import Mathlib.Data.List.Forall2

/-! # Colours and tokens

    A line is cut into coloured pieces by one reader and into tokens by another one.  The two agree
    on every line that closes its strings, as long as the blanks in its code are those that the
    scanner knows:

    * `Agrees`: some pieces and what some text is cut into.
    * `HighlightMode.IsOpen.step`: the two readers agree on every character.
    * `agrees_highlightFrom`: they agree from any place of a line on.
    * `highlight_agrees`: a word is coloured as an error iff the line has no tokens, and otherwise
      the pieces that show words are the words of its tokens. -/

namespace CalcLang

/-! ### Lines -/

/-- The strings that a line opens are closed at its end.  What stands behind a `#` opens none. -/
def closesStrings (inString : Bool) : List Char → Bool
  | [] => !inString
  | c :: rest =>
    if inString then closesStrings (c != '"') rest
    else if c = '#' then true
    else closesStrings (c == '"') rest

/-- The characters of a line outside of strings and comments, and the quotes that open strings. -/
def codeOf (inString : Bool) : List Char → List Char
  | [] => []
  | c :: rest =>
    if inString then codeOf (c != '"') rest
    else if c = '#' then []
    else c :: codeOf (c == '"') rest

/-- A blank that is none to the scanner is part of the word around it. -/
def IsForeignBlank (c : Char) : Prop :=
  Text.isBlank c = true ∧ c ≠ ' ' ∧ c ≠ '\t' ∧ c ≠ '\r'

instance : DecidablePred IsForeignBlank :=
  fun c => inferInstanceAs (Decidable (Text.isBlank c = true ∧ c ≠ ' ' ∧ c ≠ '\t' ∧ c ≠ '\r'))

/-! ### Pieces -/

/-- The style of a word that is none of the language. -/
def errorStyle : Style := Style.withUnderline (.colored Palette.error)

/-- A piece that is neither blank nor a comment. -/
def Fragment.showsWord (piece : Fragment) : Bool :=
  !piece.text.all Text.isBlank && piece.text.head? != some '#'

/-- A piece shows the word of a token, whose kind is the one that the word is classified as. -/
def Fragment.Shows (piece : Fragment) (token : Token) : Prop :=
  ∃ kind, Word.kind? piece.text = some kind ∧ token = .ofWord kind piece.text 1

/-- Some pieces and what a text is cut into: the pieces show the tokens, or one of them shows an
    error. -/
inductive Agrees (pieces : List Fragment) : Except LexicalError (List Token) → Prop
  | ok {tokens : List Token}
      (hshown : List.Forall₂ Fragment.Shows (pieces.filter Fragment.showsWord) tokens)
      (hstyle : ∀ piece ∈ pieces, piece.style ≠ errorStyle) : Agrees pieces (.ok tokens)
  | error {error : LexicalError} (herror : ∃ piece ∈ pieces, piece.style = errorStyle) :
      Agrees pieces (.error error)

variable {pieces pieces' : List Fragment} {piece : Fragment} {kind : Kind}
  {pending line : List Char} {words : List (List Char)} {c : Char} {mode : HighlightMode}

theorem agrees_nil : Agrees [] (.ok []) := .ok .nil nofun

theorem agrees_shown (hshows : piece.showsWord = true) (hkind : Word.kind? piece.text = some kind)
    (hstyle : piece.style ≠ errorStyle) : Agrees [piece] (.ok [.ofWord kind piece.text 1]) := by
  refine .ok ?_ (List.forall_mem_singleton.2 hstyle)
  rw [List.filter_cons_of_pos hshows]
  exact .cons ⟨kind, hkind, rfl⟩ .nil

theorem agrees_hidden (hhidden : piece.showsWord = false) (hstyle : piece.style ≠ errorStyle) :
    Agrees [piece] (.ok []) := by
  refine .ok ?_ (List.forall_mem_singleton.2 hstyle)
  rw [List.filter_cons_of_neg (by rw [hhidden]; exact Bool.false_ne_true)]
  exact .nil

/-- What agrees part by part agrees as a whole. -/
theorem Agrees.append {x y : Logged LexicalError (List Token)} (h : Agrees pieces x.result)
    (h' : Agrees pieces' y.result) :
    Agrees (pieces ++ pieces')
      (x >>= fun first => y >>= fun second => pure (first ++ second)).result := by
  rw [Logged.result_bind]
  generalize x.result = result at h ⊢
  cases h with
  | error herror =>
    obtain ⟨piece, hpiece, hstyle⟩ := herror
    exact .error ⟨piece, List.mem_append_left _ hpiece, hstyle⟩
  | ok hshown hstyle =>
    show Agrees _ (y >>= _).result
    rw [Logged.result_bind]
    generalize y.result = result' at h' ⊢
    cases h' with
    | error herror =>
      obtain ⟨piece, hpiece, hstyle'⟩ := herror
      exact .error ⟨piece, List.mem_append_right _ hpiece, hstyle'⟩
    | ok hshown' hstyle' =>
      refine .ok ?_ (List.forall_mem_append.2 ⟨hstyle, hstyle'⟩)
      rw [List.filter_append]
      exact List.rel_append hshown hshown'

/-! ### Words -/

theorem kindStyle_ne_error (kind : Kind) : kindStyle kind ≠ errorStyle := by
  intro h
  have hunderlined : (kindStyle kind).underlined = true := by
    rw [h]
    rfl
  cases kind with
  | literal word => cases word <;> cases hunderlined
  | _ => cases hunderlined

/-- The pending characters are those of a word: no blank and no `#` among them. -/
def IsPendingWord (pending : List Char) : Prop :=
  ∀ c ∈ pending, Text.isBlank c = false ∧ c ≠ '#'

theorem showsWord_of_isPendingWord {style : Style} (h : IsPendingWord pending)
    (hsome : pending ≠ []) : Fragment.showsWord ⟨pending.reverse, style⟩ = true := by
  have hreverse : pending.reverse ≠ [] := by
    simpa using hsome
  obtain ⟨first, rest, htext⟩ := List.exists_cons_of_ne_nil hreverse
  have hfirst := h first (List.mem_reverse.1 (htext ▸ List.mem_cons_self))
  unfold Fragment.showsWord
  rw [htext]
  simp [hfirst]

/-- The piece of a pending word and its token. -/
theorem agrees_word (h : IsPendingWord pending) :
    Agrees (wordFragment pending) (flush 1 pending).result := by
  by_cases hempty : pending = []
  · rw [hempty]
    exact agrees_nil
  · have hpieces : wordFragment pending = [⟨pending.reverse, wordStyle pending.reverse⟩] := by
      rw [wordFragment, if_neg (by simpa using hempty)]
    rw [hpieces, result_flush hempty]
    cases hkind : Word.kind? pending.reverse with
    | none =>
      refine .error ⟨_, List.mem_singleton_self _, ?_⟩
      show wordStyle pending.reverse = errorStyle
      rw [wordStyle, hkind]
      rfl
    | some kind =>
      refine agrees_shown (showsWord_of_isPendingWord h hempty) hkind ?_
      show wordStyle pending.reverse ≠ errorStyle
      rw [wordStyle, hkind]
      exact kindStyle_ne_error kind

/-- A text between two quotes is a string. -/
theorem Word.kind?_of_quotes (inner : List Char) :
    kind? ('"' :: (inner ++ ['"'])) = some (.literal .string) := by
  have hupper : Text.upcase ('"' :: (inner ++ ['"'])) = '"' :: (Text.upcase inner ++ ['"']) := by
    rw [Text.upcase_cons, Text.upcase_append]
    rfl
  have hstring : isStringLiteral ('"' :: (Text.upcase inner ++ ['"'])) = true := by
    show ((Text.upcase inner ++ ['"']).getLast? == some '"') = true
    rw [List.getLast?_concat]
    rfl
  unfold kind? classify
  rw [hupper, Kind.ofSpelling?_of_quote, shape?, isCharLiteral_of_quote, hstring]
  rfl

/-- The piece of a string that is closed, and its token. -/
theorem agrees_string (h : pending.getLast? = some '"') :
    Agrees [stringFragment ('"' :: pending)] (flush 1 ('"' :: pending)).result := by
  obtain ⟨before, hpending⟩ := List.getLast?_eq_some_iff.1 h
  have htext : ('"' :: pending).reverse = '"' :: (before.reverse ++ ['"']) := by
    rw [hpending]
    simp
  have hkind := Word.kind?_of_quotes before.reverse
  rw [← htext] at hkind
  rw [result_flush (List.cons_ne_nil _ _), hkind]
  refine agrees_shown ?_ hkind (by show Style.colored Palette.string ≠ errorStyle; decide)
  unfold Fragment.showsWord stringFragment
  rw [htext]
  rfl

/-- The piece of a parenthesis or a comma, and its token. -/
theorem agrees_mark (h : c = '(' ∨ c = ')' ∨ c = ',') :
    Agrees [⟨[c], .colored Palette.symbol⟩] (flush 1 [c]).result := by
  have hkind : ∃ kind, Word.kind? [c] = some kind ∧
      Fragment.showsWord ⟨[c], .colored Palette.symbol⟩ = true := by
    rcases h with rfl | rfl | rfl
    · exact ⟨.openParen, by decide, by decide⟩
    · exact ⟨.closeParen, by decide, by decide⟩
    · exact ⟨.comma, by decide, by decide⟩
  obtain ⟨kind, hkind, hshows⟩ := hkind
  have hreverse : [c].reverse = [c] := rfl
  rw [result_flush (List.cons_ne_nil _ _), hreverse, hkind]
  exact agrees_shown hshows hkind (by show Style.colored Palette.symbol ≠ errorStyle; decide)

/-- The piece of a blank. -/
theorem agrees_blank (h : Text.isBlank c = true) : Agrees [⟨[c], .plain⟩] (.ok []) := by
  refine agrees_hidden ?_ (by show Style.plain ≠ errorStyle; decide)
  unfold Fragment.showsWord
  rw [List.all_cons, h]
  rfl

/-- The piece of a comment. -/
theorem agrees_comment (text : List Char) :
    Agrees [⟨'#' :: text, .colored Palette.comment⟩] (.ok []) := by
  refine agrees_hidden ?_ (by show Style.colored Palette.comment ≠ errorStyle; decide)
  unfold Fragment.showsWord
  rw [List.head?_cons, bne_self_eq_false, Bool.and_false]

/-- The pieces of some words are put together. -/
theorem agrees_flushAll_cons (hword : Agrees pieces (flush 1 pending).result)
    (hwords : Agrees pieces' (flushAll 1 words).result) :
    Agrees (pieces ++ pieces') (flushAll 1 (pending :: words)).result :=
  hword.append hwords

theorem agrees_flushAll_one (hword : Agrees pieces (flush 1 pending).result) :
    Agrees pieces (flushAll 1 [pending]).result := by
  have hnone : Agrees [] (flushAll 1 []).result := agrees_nil
  have hboth := agrees_flushAll_cons hword hnone
  rwa [List.append_nil] at hboth

/-! ### One character

    As in the scanner, what a character does depends on the mode only, so that the induction over a
    line has a single case besides the one of a comment. -/

namespace HighlightMode

/-- The pieces that a character completes, and the mode behind it.  The `#` of a comment is left to
    `highlightFrom`, since no mode is behind it. -/
def step : HighlightMode → Char → List Fragment × HighlightMode
  | .text pending, c =>
    if c = '"' then ([stringFragment (c :: pending)], .code []) else ([], .text (c :: pending))
  | .code pending, c =>
    if c = '"' then (wordFragment pending, .text [c])
    else if c = '(' ∨ c = ')' ∨ c = ',' then
      (wordFragment pending ++ [⟨[c], .colored Palette.symbol⟩], .code [])
    else if Text.isBlank c then (wordFragment pending ++ [⟨[c], .plain⟩], .code [])
    else ([], .code (c :: pending))

/-- Whether a string is being read. -/
def inString : HighlightMode → Bool
  | .code _ => false
  | .text _ => true

/-- The mode in which the scanner reads on. -/
def scanMode : HighlightMode → ScanMode
  | .code pending => .code pending
  | .text pending => .text pending

/-- What may be pending while a line is coloured. -/
def IsOpen : HighlightMode → Prop
  | .code pending => IsPendingWord pending
  | .text pending => pending.getLast? = some '"'

end HighlightMode

theorem highlightFrom_cons (hcomment : mode.inString = false → c ≠ '#') (rest : List Char) :
    highlightFrom mode (c :: rest) = (mode.step c).1 ++ highlightFrom (mode.step c).2 rest := by
  cases mode with
  | text pending =>
    rw [highlightFrom, HighlightMode.step]
    split <;> rfl
  | code pending =>
    rw [highlightFrom, if_neg (hcomment rfl), HighlightMode.step]
    repeat' split
    all_goals simp

theorem inString_step (mode : HighlightMode) (c : Char) :
    (mode.step c).2.inString = if mode.inString then c != '"' else c == '"' := by
  cases mode with
  | text pending =>
    by_cases hquote : c = '"' <;> simp [HighlightMode.step, HighlightMode.inString, hquote]
  | code pending =>
    by_cases hquote : c = '"'
    · simp [HighlightMode.step, HighlightMode.inString, hquote]
    · simp only [HighlightMode.step, hquote, if_false]
      split
      · simp [HighlightMode.inString, hquote]
      · split <;> simp [HighlightMode.inString, hquote]

theorem closesStrings_cons (hcomment : mode.inString = false → c ≠ '#') (rest : List Char) :
    closesStrings mode.inString (c :: rest) = closesStrings (mode.step c).2.inString rest := by
  rw [inString_step, closesStrings]
  cases hstring : mode.inString with
  | true => rfl
  | false => rw [if_neg Bool.false_ne_true, if_neg (hcomment hstring), if_neg Bool.false_ne_true]

theorem codeOf_cons (hcomment : mode.inString = false → c ≠ '#') (rest : List Char) :
    codeOf mode.inString (c :: rest) =
      if mode.inString then codeOf (mode.step c).2.inString rest
      else c :: codeOf (mode.step c).2.inString rest := by
  rw [inString_step, codeOf]
  cases hstring : mode.inString with
  | true => rfl
  | false =>
    rw [if_neg Bool.false_ne_true, if_neg (hcomment hstring), if_neg Bool.false_ne_true,
      if_neg Bool.false_ne_true]

/-- A blank of the code that is not foreign is one of the scanner's. -/
theorem blank_cases (hblank : Text.isBlank c = true) (hforeign : ¬IsForeignBlank c) :
    c = ' ' ∨ c = '\t' ∨ c = '\r' := by
  by_contra hnone
  simp only [not_or] at hnone
  exact hforeign ⟨hblank, hnone.1, hnone.2.1, hnone.2.2⟩

/-- The pieces that a character completes are those of the words that it completes. -/
theorem HighlightMode.IsOpen.step (hopen : mode.IsOpen) (hbreak : c ≠ '\n')
    (hcomment : mode.inString = false → c ≠ '#')
    (hforeign : mode.inString = false → ¬IsForeignBlank c) :
    (mode.step c).2.IsOpen ∧ ∃ words, mode.scanMode.step c = (words, (mode.step c).2.scanMode) ∧
      Agrees (mode.step c).1 (flushAll 1 words).result := by
  have hfresh : (HighlightMode.code []).IsOpen := nofun
  cases mode with
  | text pending =>
    by_cases hquote : c = '"'
    · -- The string is closed.
      subst hquote
      exact ⟨hfresh, [_], rfl, agrees_flushAll_one (agrees_string hopen)⟩
    · have hstep : (HighlightMode.text pending).step c = ([], .text (c :: pending)) := if_neg hquote
      have hmore : (c :: pending).getLast? = some '"' := by
        rw [List.getLast?_cons, show pending.getLast? = some '"' from hopen]
        rfl
      rw [hstep]
      exact ⟨hmore, [], step_text_of_inner hquote hbreak, agrees_nil⟩
  | code pending =>
    have hword := agrees_word hopen
    have hcomment := hcomment rfl
    have hforeign := hforeign rfl
    by_cases hquote : c = '"'
    · -- A string is opened.
      subst hquote
      exact ⟨rfl, [_], rfl, agrees_flushAll_one hword⟩
    by_cases hmark : c = '(' ∨ c = ')' ∨ c = ','
    · have hstep : (HighlightMode.code pending).step c =
          (wordFragment pending ++ [⟨[c], .colored Palette.symbol⟩], .code []) := by
        simp [HighlightMode.step, hquote, hmark]
      have hscan : (ScanMode.code pending).step c = ([pending, [c]], .code []) := by
        rcases hmark with rfl | rfl | rfl <;> rfl
      rw [hstep]
      exact ⟨hfresh, _, hscan,
        agrees_flushAll_cons hword (agrees_flushAll_one (agrees_mark hmark))⟩
    by_cases hblank : Text.isBlank c = true
    · have hstep : (HighlightMode.code pending).step c =
          (wordFragment pending ++ [⟨[c], .plain⟩], .code []) := by
        simp [HighlightMode.step, hquote, hmark, hblank]
      have hscan : (ScanMode.code pending).step c = ([pending], .code []) := by
        rcases blank_cases hblank hforeign with rfl | rfl | rfl <;> rfl
      have hpiece : Agrees [⟨[c], .plain⟩] (flushAll 1 []).result := agrees_blank hblank
      rw [hstep]
      exact ⟨hfresh, _, hscan, agrees_flushAll_cons hword hpiece⟩
    · -- No character that the scanner ends a word at is left.
      have hstep : (HighlightMode.code pending).step c = ([], .code (c :: pending)) := by
        simp [HighlightMode.step, hquote, hmark, hblank]
      have hscan : (ScanMode.code pending).step c = ([], .code (c :: pending)) := by
        have hspace : c ≠ ' ' ∧ c ≠ '\t' ∧ c ≠ '\r' := by
          refine ⟨?_, ?_, ?_⟩ <;> rintro rfl <;> exact hblank (by decide)
        apply step_code_of_run
        simp only [not_or] at hmark
        simp [endsWord, hbreak, hcomment, hspace, hmark, hquote]
      rw [hstep]
      exact ⟨List.forall_mem_cons.2 ⟨⟨by simpa using hblank, hcomment⟩, hopen⟩, _, hscan,
        agrees_nil⟩

/-! ### Lines, character by character -/

/-- The pieces of the rest of a line are those of its tokens. -/
theorem agrees_highlightFrom (hopen : mode.IsOpen) (hbreak : '\n' ∉ line)
    (hclosed : closesStrings mode.inString line = true)
    (hblanks : ∀ c ∈ codeOf mode.inString line, ¬IsForeignBlank c) :
    Agrees (highlightFrom mode line) (scan mode.scanMode 1 line).result := by
  induction line generalizing mode with
  | nil =>
    cases mode with
    | code pending => exact agrees_word hopen
    | text pending => cases hclosed
  | cons c rest ih =>
    obtain ⟨hc, hrest⟩ := not_or.1 (mt List.mem_cons.2 hbreak)
    rw [scan_cons, if_neg (Ne.symm hc), breakOf, if_neg (Ne.symm hc)]
    by_cases hcomment : mode.inString = false ∧ c = '#'
    · -- The rest of the line is one piece, and there are no tokens in it.
      obtain ⟨hcode, rfl⟩ := hcomment
      cases mode with
      | text pending => cases hcode
      | code pending =>
        have hstep : (HighlightMode.code pending).scanMode.step '#' = ([pending], .comment) := rfl
        have hpieces : highlightFrom (.code pending) ('#' :: rest) =
            wordFragment pending ++ [⟨'#' :: rest, .colored Palette.comment⟩] := by
          simp [highlightFrom]
        have hafter : Agrees [⟨'#' :: rest, .colored Palette.comment⟩]
            (scan .comment 1 rest).result := by
          rw [scan_comment 1 hrest]
          exact agrees_comment rest
        rw [hstep, hpieces]
        simpa using (agrees_flushAll_one (agrees_word hopen)).append hafter
    · -- The character is read in a step, and the rest of the line in the mode behind it.
      have hcomment : mode.inString = false → c ≠ '#' := not_and.1 hcomment
      have hforeign : mode.inString = false → ¬IsForeignBlank c := by
        intro hcode
        apply hblanks
        rw [codeOf_cons hcomment, hcode]
        exact List.mem_cons_self
      have hafter : ∀ d ∈ codeOf (mode.step c).2.inString rest, ¬IsForeignBlank d := by
        intro d hd
        apply hblanks
        rw [codeOf_cons hcomment]
        split
        · exact hd
        · exact List.mem_cons_of_mem _ hd
      obtain ⟨hopen', words, hstep, hwords⟩ := hopen.step (Ne.symm hc) hcomment hforeign
      rw [closesStrings_cons hcomment] at hclosed
      rw [highlightFrom_cons hcomment, hstep]
      simpa using hwords.append (ih hopen' hrest hclosed hafter)

/-! ### Whole lines -/

/-- On a line that closes its strings and has no foreign blanks in its code, a word is coloured as
    an error iff the line has no tokens, and otherwise the pieces that show words are the words of
    its tokens, each of the kind of its token. -/
theorem highlight_agrees (line : List Char) (hbreak : '\n' ∉ line)
    (hclosed : closesStrings false line = true)
    (hblanks : ∀ c ∈ codeOf false line, ¬IsForeignBlank c) :
    ((∃ piece ∈ highlight line, piece.style = errorStyle) ↔
      ∃ error, tokenize (String.ofList line) = .error error) ∧
    ∀ tokens, tokenize (String.ofList line) = .ok tokens →
      List.Forall₂ Fragment.Shows ((highlight line).filter Fragment.showsWord) tokens.dropLast := by
  have hopen : (HighlightMode.code []).IsOpen := nofun
  have hagrees : Agrees (highlight line) (scan (.code []) 1 line).result :=
    agrees_highlightFrom hopen hbreak hclosed hblanks
  rw [tokenize_line hbreak]
  generalize (scan (.code []) 1 line).result = result at hagrees ⊢
  cases hagrees with
  | @error e herror => exact ⟨⟨fun _ => ⟨e, rfl⟩, fun _ => herror⟩, nofun⟩
  | ok hshown hstyle =>
    refine ⟨⟨?_, nofun⟩, ?_⟩
    · rintro ⟨piece, hpiece, hpieceStyle⟩
      exact absurd hpieceStyle (hstyle piece hpiece)
    · intro tokens htokens
      obtain rfl := Except.ok.inj htokens
      rw [List.dropLast_concat]
      exact hshown

/-- A `#` in a string starts no comment, and a quote in a comment opens no string. -/
theorem highlight_agrees_comment :
    '\n' ∉ "DISP \"a # b\",A # \"?".toList ∧
      closesStrings false "DISP \"a # b\",A # \"?".toList = true ∧
      (∀ c ∈ codeOf false "DISP \"a # b\",A # \"?".toList, ¬IsForeignBlank c) ∧
      ((∃ piece ∈ highlight "DISP \"a # b\",A # \"?".toList, piece.style = errorStyle) ↔
        ∃ error, tokenize (String.ofList "DISP \"a # b\",A # \"?".toList) = .error error) ∧
      ∀ tokens, tokenize (String.ofList "DISP \"a # b\",A # \"?".toList) = .ok tokens →
        List.Forall₂ Fragment.Shows
          ((highlight "DISP \"a # b\",A # \"?".toList).filter Fragment.showsWord)
          tokens.dropLast := by
  have hbreak : '\n' ∉ "DISP \"a # b\",A # \"?".toList := by decide
  have hclosed : closesStrings false "DISP \"a # b\",A # \"?".toList = true := by decide
  have hnone :
      (codeOf false "DISP \"a # b\",A # \"?".toList).all (fun c => ¬IsForeignBlank c) = true := by
    decide
  have hblanks : ∀ c ∈ codeOf false "DISP \"a # b\",A # \"?".toList, ¬IsForeignBlank c := by
    intro c hc
    simpa using List.all_eq_true.1 hnone c hc
  exact ⟨hbreak, hclosed, hblanks, highlight_agrees _ hbreak hclosed hblanks⟩

/-- A no-break space ends a word for the colours, but not for the scanner: `A` and `B` are shown as
    two variables where the scanner reads one word that is none of the language. -/
theorem highlight_disagrees_noBreakSpace :
    '\n' ∉ ['A', '\u00a0', 'B'] ∧ closesStrings false ['A', '\u00a0', 'B'] = true ∧
      tokenize (String.ofList ['A', '\u00a0', 'B']) =
        .error ⟨String.ofList ['A', '\u00a0', 'B'], 1⟩ ∧
      ¬∃ piece ∈ highlight ['A', '\u00a0', 'B'], piece.style = errorStyle := by
  refine ⟨by decide, by decide, rfl, ?_⟩
  have hpieces : highlight ['A', '\u00a0', 'B'] =
      [⟨['A'], .colored Palette.text⟩, ⟨['\u00a0'], .plain⟩, ⟨['B'], .colored Palette.text⟩] := by
    decide
  rw [hpieces]
  decide

end CalcLang
