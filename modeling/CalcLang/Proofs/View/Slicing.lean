import CalcLang.Proofs.View.Highlighting

/-! # Every character of a line is shown once

    A line is coloured by cutting it into slices.  The slices are given by bytes of its encoding, and a
    slice that cuts a character in two does not exist:

    * `slice?`: the part of a text between two bytes.
    * `highlightSlices?`: the pieces of a line, read with the byte at which each character starts and the
      one at which the pending word does.
    * `highlightSlices?_eq`: every slice exists, and the pieces are those of `highlight`.
    * `StartsComment`: the first `#` of a line with an even number of quotes before it.
    * `highlight_exact`: the pieces spell the line, none is empty, and only the last one may be a
      comment. -/

namespace CalcLang

variable {line text before behind inner word passed rest : List Char} {c : Char}
  {mode : HighlightMode} {place : Nat} {piece : Fragment}

/-! ### Bytes -/

/-- The number of bytes that a text takes in UTF-8. -/
def byteLength : List Char → Nat
  | [] => 0
  | c :: rest => c.utf8Size + byteLength rest

@[simp] theorem byteLength_nil : byteLength [] = 0 := rfl

@[simp] theorem byteLength_cons (c : Char) (rest : List Char) :
    byteLength (c :: rest) = c.utf8Size + byteLength rest := rfl

@[simp] theorem byteLength_append (before behind : List Char) :
    byteLength (before ++ behind) = byteLength before + byteLength behind := by
  induction before with
  | nil => simp
  | cons c before ih => simp [ih, Nat.add_assoc]

/-- The parts of a text before a byte and from it on.  There are none if the byte is inside a character
    or behind the text. -/
def splitAtByte? (byte : Nat) : List Char → Option (List Char × List Char)
  | [] => if byte = 0 then some ([], []) else none
  | c :: rest =>
    if byte = 0 then some ([], c :: rest)
    else if c.utf8Size ≤ byte then
      (splitAtByte? (byte - c.utf8Size) rest).map fun (before, behind) => (c :: before, behind)
    else none

/-- The part of a text from a byte up to another one. -/
def slice? (text : List Char) (start stop : Nat) : Option (List Char) :=
  if start ≤ stop then do
    let (_, behind) ← splitAtByte? start text
    let (inner, _) ← splitAtByte? (stop - start) behind
    some inner
  else none

theorem splitAtByte?_append (before behind : List Char) :
    splitAtByte? (byteLength before) (before ++ behind) = some (before, behind) := by
  induction before with
  | nil => cases behind <;> simp [splitAtByte?]
  | cons c before ih =>
    have hpositive := c.utf8Size_pos
    have hne : c.utf8Size + byteLength before ≠ 0 := by omega
    rw [List.cons_append, byteLength_cons, splitAtByte?, if_neg hne, if_pos (Nat.le_add_right _ _),
      Nat.add_sub_cancel_left, ih]
    rfl

/-- What stands between two places where characters start is a slice. -/
theorem slice?_middle (before inner behind : List Char) :
    slice? (before ++ inner ++ behind) (byteLength before) (byteLength before + byteLength inner) =
      some inner := by
  rw [slice?, if_pos (Nat.le_add_right _ _), List.append_assoc, splitAtByte?_append,
    Nat.add_sub_cancel_left]
  show (splitAtByte? (byteLength inner) (inner ++ behind)).bind _ = _
  rw [splitAtByte?_append]
  rfl

/-! ### Reading by bytes -/

/-- The characters of a text, each with the byte at which it starts. -/
def charPlaces : Nat → List Char → List (Nat × Char)
  | _, [] => []
  | byte, c :: rest => (byte, c) :: charPlaces (byte + c.utf8Size) rest

/-- The piece of a pending word, if there is one, up to a byte. -/
def flushSlice? (line : List Char) (start : Option Nat) (stop : Nat) : Option (List Fragment) :=
  match start with
  | none => some []
  | some start => (slice? line start stop).map fun word => [⟨word, wordStyle word⟩]

/-- The pieces of the rest of a line, given by its characters and the bytes at which they start.  There
    are none if a slice does not exist. -/
def highlightSlices? (line : List Char) (start : Option Nat) :
    List (Nat × Char) → Option (List Fragment)
  | [] => flushSlice? line start (byteLength line)
  | (byte, c) :: ahead =>
    if c = '#' then do
      let word ← flushSlice? line start byte
      let comment ← slice? line byte (byteLength line)
      some (word ++ [⟨comment, .colored Palette.comment⟩])
    else if c = '"' then do
      let word ← flushSlice? line start byte
      let stop := ((ahead.find? (·.2 == '"')).map (·.1 + 1)).getD (byteLength line)
      let string ← slice? line byte stop
      let later ← highlightSlices? line none (ahead.dropWhile (·.2 != '"')).tail
      some (word ++ ⟨string, .colored Palette.string⟩ :: later)
    else if c = '(' ∨ c = ')' ∨ c = ',' then do
      let word ← flushSlice? line start byte
      let mark ← slice? line byte (byte + 1)
      let later ← highlightSlices? line none ahead
      some (word ++ ⟨mark, .colored Palette.symbol⟩ :: later)
    else if Text.isBlank c then do
      let word ← flushSlice? line start byte
      let blank ← slice? line byte (byte + c.utf8Size)
      let later ← highlightSlices? line none ahead
      some (word ++ ⟨blank, .plain⟩ :: later)
    else
      highlightSlices? line (start.or (some byte)) ahead
  termination_by ahead => ahead.length
  decreasing_by
    · have hshorter := List.length_dropWhile_le (·.2 != '"') ahead
      simp only [List.length_tail, List.length_cons]
      omega
    all_goals simp

/-! ### Strings -/

/-- A string that is not closed reaches to the end of the line. -/
theorem highlightFrom_text_open (h : '"' ∉ rest) (pending : List Char) :
    highlightFrom (.text pending) rest = [stringFragment (rest.reverse ++ pending)] := by
  induction rest generalizing pending with
  | nil => rfl
  | cons c rest ih =>
    obtain ⟨hc, hrest⟩ := not_or.1 (mt List.mem_cons.2 h)
    rw [highlightFrom, if_neg (Ne.symm hc), ih hrest]
    simp

/-- A string reaches to the next quote. -/
theorem highlightFrom_text_closed (h : '"' ∉ inner) (pending rest : List Char) :
    highlightFrom (.text pending) (inner ++ '"' :: rest) =
      stringFragment ('"' :: (inner.reverse ++ pending)) :: highlightFrom (.code []) rest := by
  induction inner generalizing pending with
  | nil => simp [highlightFrom]
  | cons c inner ih =>
    obtain ⟨hc, hinner⟩ := not_or.1 (mt List.mem_cons.2 h)
    rw [List.cons_append, highlightFrom, if_neg (Ne.symm hc), ih hinner]
    simp

/-- Where no quote is, none is found. -/
theorem find?_quote_open (h : '"' ∉ rest) (byte : Nat) :
    (charPlaces byte rest).find? (·.2 == '"') = none ∧
      (charPlaces byte rest).dropWhile (·.2 != '"') = [] := by
  induction rest generalizing byte with
  | nil => exact ⟨rfl, rfl⟩
  | cons c rest ih =>
    obtain ⟨hc, hrest⟩ := not_or.1 (mt List.mem_cons.2 h)
    obtain ⟨hfind, hdrop⟩ := ih hrest (byte + c.utf8Size)
    simp [charPlaces, Ne.symm hc, hfind, hdrop]

/-- The next quote is found. -/
theorem find?_quote_closed (h : '"' ∉ inner) (byte : Nat) (behind : List Char) :
    (charPlaces byte (inner ++ '"' :: behind)).find? (·.2 == '"') =
        some (byte + byteLength inner, '"') ∧
      ((charPlaces byte (inner ++ '"' :: behind)).dropWhile (·.2 != '"')).tail =
        charPlaces (byte + byteLength inner + 1) behind := by
  induction inner generalizing byte with
  | nil => exact ⟨by simp [charPlaces], by simp [charPlaces]; rfl⟩
  | cons c inner ih =>
    obtain ⟨hc, hinner⟩ := not_or.1 (mt List.mem_cons.2 h)
    obtain ⟨hfind, hdrop⟩ := ih hinner (byte + c.utf8Size)
    rw [Nat.add_assoc] at hfind
    rw [Nat.add_assoc byte] at hdrop
    simp only [charPlaces, List.cons_append, byteLength_cons]
    refine ⟨?_, ?_⟩
    · rw [List.find?_cons_of_neg (by simp [Ne.symm hc])]
      exact hfind
    · rw [List.dropWhile_cons_of_pos (by simp [Ne.symm hc])]
      exact hdrop

/-! ### All slices exist -/

/-- The byte at which a pending word starts, if there is one. -/
def wordStart (passed word : List Char) : Option Nat :=
  if word = [] then none else some (byteLength passed)

theorem flushSlice?_eq (hline : line = passed ++ word ++ rest) :
    flushSlice? line (wordStart passed word) (byteLength (passed ++ word)) =
      some (wordFragment word.reverse) := by
  by_cases hword : word = []
  · subst hword
    rfl
  · have hslice := slice?_middle passed word rest
    rw [← hline] at hslice
    simp [wordStart, hword, flushSlice?, wordFragment, hslice]

/-- A pending word that is joined by a character starts where it started, or else at the character. -/
theorem wordStart_join (passed word : List Char) (c : Char) :
    wordStart passed (word ++ [c]) =
      (wordStart passed word).or (some (byteLength (passed ++ word))) := by
  by_cases hword : word = [] <;> simp [wordStart, hword]

/-- What comes next on a line is a slice. -/
theorem slice?_next (hline : line = passed ++ (inner ++ rest)) :
    slice? line (byteLength passed) (byteLength passed + byteLength inner) = some inner := by
  rw [hline, ← List.append_assoc]
  exact slice?_middle passed inner rest

/-- The rest of a line is a slice. -/
theorem slice?_rest (hline : line = passed ++ rest) :
    slice? line (byteLength passed) (byteLength line) = some rest := by
  have hall : line = passed ++ (rest ++ []) := by rw [List.append_nil, hline]
  have hslice := slice?_next hall
  rwa [← byteLength_append, ← hline] at hslice

/-- A comment reaches to the end of the line. -/
theorem highlightSlices?_comment (hline : line = passed ++ word ++ '#' :: rest) :
    highlightSlices? line (wordStart passed word)
        (charPlaces (byteLength (passed ++ word)) ('#' :: rest)) =
      some (highlightFrom (.code word.reverse) ('#' :: rest)) := by
  rw [charPlaces, highlightSlices?, flushSlice?_eq hline, slice?_rest hline]
  simp [highlightFrom]

/-- A string that is not closed reaches to the end of the line. -/
theorem highlightSlices?_string_open (hline : line = passed ++ word ++ '"' :: rest)
    (hopen : '"' ∉ rest) :
    highlightSlices? line (wordStart passed word)
        (charPlaces (byteLength (passed ++ word)) ('"' :: rest)) =
      some (highlightFrom (.code word.reverse) ('"' :: rest)) := by
  have hsize : Char.utf8Size '"' = 1 := rfl
  have hfind := find?_quote_open hopen (byteLength (passed ++ word) + 1)
  have hend : highlightSlices? line none [] = some [] := by simp [highlightSlices?, flushSlice?]
  have hstring : highlightFrom (.text ['"']) rest = [stringFragment (rest.reverse ++ ['"'])] :=
    highlightFrom_text_open hopen _
  rw [charPlaces, highlightSlices?, flushSlice?_eq hline, hsize, hfind.1, hfind.2]
  simp only [Option.map_none, Option.getD_none, slice?_rest hline]
  simp [highlightFrom, hend, hstring, stringFragment]

/-- A string that is closed, and what is read behind it. -/
theorem highlightSlices?_string_closed
    (hline : line = passed ++ word ++ '"' :: (inner ++ '"' :: rest)) (hinner : '"' ∉ inner)
    (hlater : highlightSlices? line none
        (charPlaces (byteLength (passed ++ word ++ '"' :: (inner ++ ['"']))) rest) =
      some (highlightFrom (.code []) rest)) :
    highlightSlices? line (wordStart passed word)
        (charPlaces (byteLength (passed ++ word)) ('"' :: (inner ++ '"' :: rest))) =
      some (highlightFrom (.code word.reverse) ('"' :: (inner ++ '"' :: rest))) := by
  have hsize : Char.utf8Size '"' = 1 := rfl
  have hparts : line = passed ++ word ++ ('"' :: (inner ++ ['"']) ++ rest) := by simp [hline]
  have hslice := slice?_next hparts
  have hstring : highlightFrom (.text ['"']) (inner ++ '"' :: rest) =
      stringFragment ('"' :: (inner.reverse ++ ['"'])) :: highlightFrom (.code []) rest :=
    highlightFrom_text_closed hinner _ _
  rw [byteLength_append] at hlater
  -- The string ends a byte behind its second quote.
  have hbytes : byteLength ('"' :: (inner ++ ['"'])) = 1 + byteLength inner + 1 := by
    simp [hsize, Nat.add_assoc]
  have hstop : byteLength (passed ++ word) + 1 + byteLength inner + 1 =
      byteLength (passed ++ word) + byteLength ('"' :: (inner ++ ['"'])) := by
    rw [hbytes]
    omega
  have hfind := find?_quote_closed hinner (byteLength (passed ++ word) + 1) rest
  rw [charPlaces, highlightSlices?, flushSlice?_eq hline, hsize, hfind.1, hfind.2, hstop, hlater]
  simp only [Option.map_some, Option.getD_some, hstop, hslice]
  simp [highlightFrom, hstring, stringFragment]

/-- Every other character is a piece of its own behind the pending word, or it joins that word. -/
theorem highlightSlices?_char (hline : line = passed ++ word ++ c :: rest) (hcomment : c ≠ '#')
    (hquote : c ≠ '"')
    (hlater : highlightSlices? line none (charPlaces (byteLength (passed ++ word ++ [c])) rest) =
      some (highlightFrom (.code []) rest))
    (hjoin : highlightSlices? line (wordStart passed (word ++ [c]))
        (charPlaces (byteLength (passed ++ word ++ [c])) rest) =
      some (highlightFrom (.code (c :: word.reverse)) rest)) :
    highlightSlices? line (wordStart passed word)
        (charPlaces (byteLength (passed ++ word)) (c :: rest)) =
      some (highlightFrom (.code word.reverse) (c :: rest)) := by
  have hone : line = passed ++ word ++ ([c] ++ rest) := hline
  have hslice := slice?_next hone
  rw [wordStart_join] at hjoin
  rw [byteLength_append _ [c]] at hlater hjoin
  have hsize : byteLength [c] = c.utf8Size := rfl
  rw [hsize] at hslice hlater hjoin
  rw [charPlaces, highlightSlices?, flushSlice?_eq hline, highlightFrom]
  by_cases hmark : c = '(' ∨ c = ')' ∨ c = ','
  · -- The slice of a mark is a byte long, as the mark is.
    have hbyte : c.utf8Size = 1 := by
      rcases hmark with rfl | rfl | rfl <;> rfl
    rw [hbyte] at hslice hlater
    simp only [hcomment, hquote, hmark, hbyte, if_true, if_false, hslice, hlater]
    rfl
  by_cases hblank : Text.isBlank c = true
  · simp only [hcomment, hquote, hmark, hblank, if_true, if_false, hslice, hlater]
    rfl
  · simp only [hcomment, hquote, hmark, hblank, if_false, Bool.false_eq_true, hjoin]

/-- The slices of a line are those that stand between the characters, and the pieces are those of the
    reader that knows no bytes. -/
theorem highlightSlices?_eq (hline : line = passed ++ word ++ rest) :
    highlightSlices? line (wordStart passed word) (charPlaces (byteLength (passed ++ word)) rest) =
      some (highlightFrom (.code word.reverse) rest) := by
  -- A string is passed in one step, so the induction is on the length of what is left.
  generalize hlength : rest.length = length
  induction length using Nat.strongRecOn generalizing passed word rest with
  | ind length ih =>
    cases rest with
    | nil =>
      have hflush := flushSlice?_eq hline
      rw [charPlaces, highlightSlices?, highlightFrom, ← hflush, hline, List.append_nil]
    | cons c rest =>
      rw [List.length_cons] at hlength
      by_cases hcomment : c = '#'
      · subst hcomment
        exact highlightSlices?_comment hline
      by_cases hquote : c = '"'
      · subst hquote
        by_cases hopen : '"' ∈ rest
        · obtain ⟨inner, behind, rfl, hinner⟩ := List.eq_append_cons_of_mem hopen
          have hshort : behind.length < length := by
            rw [List.length_append, List.length_cons] at hlength
            omega
          have hline' : line = passed ++ word ++ '"' :: (inner ++ ['"']) ++ [] ++ behind := by
            simp [hline]
          have hlater := ih behind.length hshort hline' rfl
          rw [List.append_nil] at hlater
          exact highlightSlices?_string_closed hline hinner hlater
        · exact highlightSlices?_string_open hline hopen
      have hpassed : line = passed ++ word ++ [c] ++ [] ++ rest := by simp [hline]
      have hjoined : line = passed ++ (word ++ [c]) ++ rest := by simp [hline]
      have hlater := ih rest.length (by omega) hpassed rfl
      have hjoin := ih rest.length (by omega) hjoined rfl
      rw [List.append_nil] at hlater
      rw [← List.append_assoc, List.reverse_concat] at hjoin
      exact highlightSlices?_char hline hcomment hquote hlater hjoin

/-! ### Spelling -/

namespace HighlightMode

/-- The characters that are pending, last one first. -/
def pending : HighlightMode → List Char
  | .code pending | .text pending => pending

/-- A string that is being read has its quote. -/
def IsStarted : HighlightMode → Prop
  | .code _ => True
  | .text pending => pending ≠ []

/-- What a character does: it closes a string or joins it, it opens a string, it is a piece of its own
    behind the pending word, or it joins that word. -/
theorem step_cases (mode : HighlightMode) (c : Char) :
    (∃ pending, mode = .text pending ∧ mode.step c = ([stringFragment (c :: pending)], .code [])) ∨
    (∃ pending, mode = .text pending ∧ mode.step c = ([], .text (c :: pending))) ∨
    (∃ pending, mode = .code pending ∧ mode.step c = (wordFragment pending, .text [c])) ∨
    (∃ pending style, mode = .code pending ∧ style ∈ [.colored Palette.symbol, .plain] ∧
      mode.step c = (wordFragment pending ++ [⟨[c], style⟩], .code [])) ∨
    ∃ pending, mode = .code pending ∧ mode.step c = ([], .code (c :: pending)) := by
  cases mode with
  | text pending => by_cases hquote : c = '"' <;> simp [step, hquote]
  | code pending =>
    by_cases hquote : c = '"'
    · simp [step, hquote]
    · by_cases hmark : c = '(' ∨ c = ')' ∨ c = ','
      · simp [step, hquote, hmark]
      · by_cases hblank : Text.isBlank c = true <;> simp [step, hquote, hmark, hblank]

theorem isStarted_step (mode : HighlightMode) (c : Char) : (mode.step c).2.IsStarted := by
  rcases mode.step_cases c with ⟨_, _, h⟩ | ⟨_, _, h⟩ | ⟨_, _, h⟩ | ⟨_, _, _, _, h⟩ | ⟨_, _, h⟩ <;>
    simp [h, IsStarted]

end HighlightMode

theorem flatMap_text_wordFragment (pending : List Char) :
    (wordFragment pending).flatMap Fragment.text = pending.reverse := by
  cases pending <;> simp [wordFragment]

theorem text_ne_nil_wordFragment (pending : List Char) :
    ∀ piece ∈ wordFragment pending, piece.text ≠ [] := by
  cases pending <;> simp [wordFragment]

/-- What a character completes and what is then pending is what was pending, and the character. -/
theorem flatMap_text_step (mode : HighlightMode) (c : Char) :
    (mode.step c).1.flatMap Fragment.text ++ (mode.step c).2.pending.reverse =
      mode.pending.reverse ++ [c] := by
  rcases mode.step_cases c with ⟨_, rfl, h⟩ | ⟨_, rfl, h⟩ | ⟨_, rfl, h⟩ | ⟨_, _, rfl, _, h⟩ |
      ⟨_, rfl, h⟩ <;>
    simp [h, HighlightMode.pending, stringFragment, flatMap_text_wordFragment]

theorem text_ne_nil_step (mode : HighlightMode) (c : Char) :
    ∀ piece ∈ (mode.step c).1, piece.text ≠ [] := by
  rcases mode.step_cases c with ⟨_, rfl, h⟩ | ⟨_, rfl, h⟩ | ⟨_, rfl, h⟩ | ⟨_, _, rfl, _, h⟩ |
    ⟨_, rfl, h⟩
  · simp [h, stringFragment]
  · simp [h]
  · rw [h]
    exact text_ne_nil_wordFragment _
  · rw [h]
    exact List.forall_mem_append.2
      ⟨text_ne_nil_wordFragment _, List.forall_mem_singleton.2 (List.cons_ne_nil _ _)⟩
  · simp [h]

/-- The `#` that starts a comment completes the pending word, and the rest of the line is one piece. -/
theorem highlightFrom_comment (pending rest : List Char) :
    highlightFrom (.code pending) ('#' :: rest) =
      wordFragment pending ++ [⟨'#' :: rest, .colored Palette.comment⟩] := by
  simp [highlightFrom]

/-- A line is read to its end, or a comment is met. -/
theorem highlightInduction {motive : HighlightMode → List Char → Prop}
    (done : ∀ mode, motive mode [])
    (comment : ∀ pending rest, motive (.code pending) ('#' :: rest))
    (step : ∀ mode c rest, (mode.inString = false → c ≠ '#') → motive (mode.step c).2 rest →
      motive mode (c :: rest))
    (mode : HighlightMode) (line : List Char) : motive mode line := by
  induction line generalizing mode with
  | nil => exact done mode
  | cons c rest ih =>
    by_cases hcomment : mode.inString = false ∧ c = '#'
    · obtain ⟨hcode, rfl⟩ := hcomment
      cases mode with
      | text pending => cases hcode
      | code pending => exact comment pending rest
    · exact step mode c rest (not_and.1 hcomment) (ih _)

/-- The pieces spell what is pending and the rest of the line. -/
theorem flatMap_text_highlightFrom (mode : HighlightMode) (line : List Char) :
    (highlightFrom mode line).flatMap Fragment.text = mode.pending.reverse ++ line := by
  induction mode, line using highlightInduction with
  | done mode =>
    cases mode <;>
      simp [highlightFrom, HighlightMode.pending, stringFragment, flatMap_text_wordFragment]
  | comment pending rest =>
    simp [highlightFrom_comment, HighlightMode.pending, flatMap_text_wordFragment]
  | step mode c rest hcomment ih =>
    rw [highlightFrom_cons hcomment, List.flatMap_append, ih, ← List.append_assoc, flatMap_text_step]
    simp

/-- No piece is empty. -/
theorem text_ne_nil_highlightFrom (mode : HighlightMode) (line : List Char) (h : mode.IsStarted) :
    ∀ piece ∈ highlightFrom mode line, piece.text ≠ [] := by
  induction mode, line using highlightInduction with
  | done mode =>
    cases mode with
    | code pending => exact text_ne_nil_wordFragment pending
    | text pending =>
      have hpending : pending ≠ [] := h
      simpa [highlightFrom, stringFragment] using hpending
  | comment pending rest =>
    rw [highlightFrom_comment]
    exact List.forall_mem_append.2
      ⟨text_ne_nil_wordFragment _, List.forall_mem_singleton.2 (List.cons_ne_nil _ _)⟩
  | step mode c rest hcomment ih =>
    rw [highlightFrom_cons hcomment]
    exact List.forall_mem_append.2 ⟨text_ne_nil_step mode c, ih (mode.isStarted_step c)⟩

/-! ### Comments -/

/-- A `#` outside of strings: an even number of quotes stands before it. -/
def IsCommentMark (text : List Char) (place : Nat) : Prop :=
  text[place]? = some '#' ∧ (text.take place).count '"' % 2 = 0

/-- The first `#` outside of strings. -/
structure StartsComment (line : List Char) (place : Nat) : Prop where
  mark : IsCommentMark line place
  first : ∀ earlier < place, ¬IsCommentMark line earlier

theorem wordStyle_ne_comment (word : List Char) : wordStyle word ≠ .colored Palette.comment := by
  unfold wordStyle
  cases Word.kind? word with
  | none => exact nofun
  | some kind =>
    cases kind with
    | literal sort => cases sort <;> exact nofun
    | _ => exact nofun

theorem style_wordFragment (pending : List Char) :
    ∀ piece ∈ wordFragment pending, piece.style ≠ .colored Palette.comment := by
  cases pending <;> simp [wordFragment, wordStyle_ne_comment]

/-- No piece that a character completes is a comment. -/
theorem style_step (mode : HighlightMode) (c : Char) :
    ∀ piece ∈ (mode.step c).1, piece.style ≠ .colored Palette.comment := by
  rcases mode.step_cases c with ⟨_, rfl, h⟩ | ⟨_, rfl, h⟩ | ⟨_, rfl, h⟩ | ⟨_, style, rfl, hstyle, h⟩ |
    ⟨_, rfl, h⟩
  · rw [h]
    exact List.forall_mem_singleton.2 (by show Style.colored Palette.string ≠ _; decide)
  · simp [h]
  · rw [h]
    exact style_wordFragment _
  · have hplain : ∀ style ∈ [Style.colored Palette.symbol, .plain],
        style ≠ .colored Palette.comment := by decide
    rw [h]
    exact List.forall_mem_append.2
      ⟨style_wordFragment _, List.forall_mem_singleton.2 (hplain style hstyle)⟩
  · simp [h]

/-- The pieces of a line from a place on, where no comment starts before it: the last one is the comment
    that starts first, or no comment starts at all. -/
theorem comment_highlightFrom (hline : line = passed ++ rest)
    (hmode : mode.inString = (passed.count '"' % 2 == 1))
    (hclear : ∀ place < passed.length, ¬IsCommentMark line place) :
    (∃ place pieces, StartsComment line place ∧
        (∀ piece ∈ pieces, piece.style ≠ .colored Palette.comment) ∧
        highlightFrom mode rest = pieces ++ [⟨line.drop place, .colored Palette.comment⟩]) ∨
      (∀ place, ¬IsCommentMark line place) ∧
        ∀ piece ∈ highlightFrom mode rest, piece.style ≠ .colored Palette.comment := by
  induction mode, rest using highlightInduction generalizing passed with
  | done mode =>
    refine .inr ⟨fun place hmark => ?_, ?_⟩
    · have hplace := (List.getElem?_eq_some_iff.1 hmark.1).1
      rw [hline, List.append_nil] at hplace
      exact hclear place hplace hmark
    · cases mode with
      | code pending => exact style_wordFragment pending
      | text pending => exact List.forall_mem_singleton.2 nofun
  | comment pending rest =>
    -- The quotes that have been passed are closed, and no comment has started before.
    have hmark : IsCommentMark line passed.length := by
      have heven : passed.count '"' % 2 ≠ 1 := by simpa [HighlightMode.inString] using hmode.symm
      refine ⟨by simp [hline], ?_⟩
      rw [hline, List.take_left]
      omega
    refine .inl ⟨passed.length, wordFragment pending, ⟨hmark, hclear⟩, ?_, ?_⟩
    · exact style_wordFragment pending
    · rw [highlightFrom_comment, hline, List.drop_left]
  | step mode c rest hcomment ih =>
    have hline' : line = passed ++ [c] ++ rest := by simp [hline]
    have hmode' : (mode.step c).2.inString = ((passed ++ [c]).count '"' % 2 == 1) := by
      rw [inString_step, hmode, List.count_append]
      by_cases hquote : c = '"'
      · rcases Nat.mod_two_eq_zero_or_one (passed.count '"') with h | h <;>
          simp [hquote, h, Nat.add_mod]
      · have hsame : (c == '"') = false := by simpa using hquote
        rcases Nat.mod_two_eq_zero_or_one (passed.count '"') with h | h <;>
          simp [hquote, hsame, bne, h]
    have hclear' : ∀ place < (passed ++ [c]).length, ¬IsCommentMark line place := by
      intro place hplace hmark
      by_cases hbefore : place < passed.length
      · exact hclear place hbefore hmark
      · -- The character itself is a `#` only inside a string.
        have hhere : place = passed.length := by simp at hplace; omega
        obtain ⟨hat, heven⟩ := hmark
        rw [hhere, hline] at hat heven
        rw [List.take_left] at heven
        have hchar : c = '#' := by simpa using hat
        exact hcomment (by rw [hmode, heven]; rfl) hchar
    rw [highlightFrom_cons hcomment]
    rcases ih hline' hmode' hclear' with ⟨place, pieces, hstarts, hpieces, hshape⟩ | ⟨hnone, hpieces⟩
    · refine .inl ⟨place, (mode.step c).1 ++ pieces, hstarts, ?_, by simp [hshape]⟩
      exact List.forall_mem_append.2 ⟨style_step mode c, hpieces⟩
    · exact .inr ⟨hnone, List.forall_mem_append.2 ⟨style_step mode c, hpieces⟩⟩

theorem StartsComment.unique {other : Nat} (h : StartsComment line place)
    (h' : StartsComment line other) : place = other := by
  rcases Nat.lt_trichotomy place other with hlt | heq | hlt
  · exact absurd h.mark (h'.first place hlt)
  · exact heq
  · exact absurd h'.mark (h.first other hlt)

theorem comment_highlight (line : List Char) :
    (∃ place pieces, StartsComment line place ∧
        (∀ piece ∈ pieces, piece.style ≠ .colored Palette.comment) ∧
        highlight line = pieces ++ [⟨line.drop place, .colored Palette.comment⟩]) ∨
      (∀ place, ¬IsCommentMark line place) ∧
        ∀ piece ∈ highlight line, piece.style ≠ .colored Palette.comment := by
  have hline : line = [] ++ line := rfl
  have hclear : ∀ place < ([] : List Char).length, ¬IsCommentMark line place := by simp
  exact comment_highlightFrom hline rfl hclear

/-! ### Main result -/

/-- All slices of a line exist, and they are its pieces.  The pieces spell the line, and none is empty.
    A comment is the last piece, which starts at the first `#` outside of strings, and there is one if
    there is such a `#`. -/
theorem highlight_exact (line : List Char) :
    highlightSlices? line none (charPlaces 0 line) = some (highlight line) ∧
      (highlight line).flatMap Fragment.text = line ∧
      (∀ piece ∈ highlight line, piece.text ≠ []) ∧
      (∀ index piece, (highlight line)[index]? = some piece →
        piece.style = .colored Palette.comment →
          index + 1 = (highlight line).length ∧
            ∃ place, StartsComment line place ∧ piece.text = line.drop place) ∧
      ∀ place, StartsComment line place → ∃ pieces,
        highlight line = pieces ++ [⟨line.drop place, .colored Palette.comment⟩] := by
  have hline : line = [] ++ [] ++ line := rfl
  refine ⟨highlightSlices?_eq hline, flatMap_text_highlightFrom _ line,
    text_ne_nil_highlightFrom _ line trivial, ?_, ?_⟩
  · intro index piece hat hstyle
    rcases comment_highlight line with ⟨place, pieces, hstarts, hpieces, hshape⟩ | ⟨-, hpieces⟩
    · -- No other piece is a comment, so this one is the last.
      rw [hshape] at hat ⊢
      by_cases hindex : index < pieces.length
      · rw [List.getElem?_append_left hindex] at hat
        exact absurd hstyle (hpieces piece (List.mem_of_getElem? hat))
      · obtain ⟨hbound, hget⟩ := List.getElem?_eq_some_iff.1 hat
        rw [List.length_append, List.length_singleton] at hbound ⊢
        obtain rfl : index = pieces.length := by omega
        refine ⟨rfl, place, hstarts, ?_⟩
        rw [← hget, List.getElem_concat_length rfl]
    · exact absurd hstyle (hpieces piece (List.mem_of_getElem? hat))
  · intro place h
    rcases comment_highlight line with ⟨other, pieces, hstarts, -, hshape⟩ | ⟨hnone, -⟩
    · rw [h.unique hstarts]
      exact ⟨pieces, hshape⟩
    · exact absurd h.mark (hnone place)

end CalcLang
