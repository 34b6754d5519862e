import CalcLang.Proofs.Scan.Words
import Mathlib.Tactic.SplitIfs

/-! # Layout inside lines

    Comments, the width of blanks and the blanks around marks say nothing about the tokens of a
    text, and neither do the carriage returns at the ends of its lines:

    * `Region`: what a character of a text belongs to, a comment, a string or the code around them.
    * `edit`: a text with every character replaced, each by what its region says.
    * `tidied`: no comments, one blank for a row of them, and blanks around every mark.
    * `scan_tidied`, `scan_withoutReturn`: from any place on, the edited text is scanned like the
      text itself, its records included.
    * `tokenize_tidied`: so both have the same tokens, or the same error. -/

namespace CalcLang

variable {mode : ScanMode} {line : Nat} {c : Char} {pending rest tail text : List Char}

/-! ### Regions of a text -/

/-- What a character of a text belongs to. -/
inductive Region where
  | code
  /-- A string, from behind its opening quote to its closing quote or to the end of the line. -/
  | string
  /-- A comment, from behind its `#` to the end of the line. -/
  | comment
  deriving DecidableEq

/-- A character that separates words and is none itself. -/
abbrev IsGap (c : Char) : Prop := c = ' ' ∨ c = '\t' ∨ c = '\r'

/-- A character that is a word of its own. -/
abbrev IsMark (c : Char) : Prop := c = '(' ∨ c = ')' ∨ c = ','

/-- What the character behind a given one belongs to. -/
def Region.next (region : Region) (c : Char) : Region :=
  if c = '\n' then .code
  else
    match region with
    | .comment => .comment
    | .string => if c = '"' then .code else .string
    | .code => if c = '#' then .comment else if c = '"' then .string else .code

/-- The region that is being read. -/
def ScanMode.region : ScanMode → Region
  | .code _ => .code
  | .text _ => .string
  | .comment => .comment

theorem region_step (mode : ScanMode) (c : Char) :
    (mode.step c).2.region = mode.region.next c := by
  unfold ScanMode.step Region.next
  by_cases hbreak : c = '\n'
  · rw [if_pos hbreak, if_pos hbreak]
    rfl
  · rw [if_neg hbreak, if_neg hbreak]
    cases mode with
    | comment => rfl
    | text pending => by_cases hquote : c = '"' <;> simp [hquote, ScanMode.region]
    | code pending =>
      by_cases hhash : c = '#'
      · simp [hhash, ScanMode.region]
      · by_cases hquote : c = '"'
        · simp [hquote, ScanMode.region]
        · -- Behind a blank, a mark or a character of a word there is code.
          simp only [if_neg hhash, if_neg hquote]
          by_cases hgap : IsGap c
          · rw [if_pos hgap]
            rfl
          · by_cases hmark : IsMark c
            · rw [if_neg hgap, if_pos hmark]
              rfl
            · rw [if_neg hgap, if_neg hmark]
              rfl

/-- No line break is inside a string. -/
def BreaksOutsideStrings : Region → List Char → Prop
  | _, [] => True
  | region, c :: rest => (c = '\n' → region ≠ .string) ∧ BreaksOutsideStrings (region.next c) rest

instance decidableBreaksOutsideStrings : (region : Region) → (text : List Char) →
    Decidable (BreaksOutsideStrings region text)
  | _, [] => .isTrue trivial
  | region, c :: rest =>
    have := decidableBreaksOutsideStrings (region.next c) rest
    inferInstanceAs (Decidable (_ ∧ _))

/-! ### Edited texts -/

/-- A text with every character replaced.  What replaces it depends on its region and on the text
    behind it. -/
def edit (replace : Region → Char → List Char → List Char) : Region → List Char → List Char
  | _, [] => []
  | region, c :: rest => replace region c rest ++ edit replace (region.next c) rest

/-- Nothing is left of a comment, one blank is left of a row of them, and a mark gets a blank on both
    sides.  Strings are left as they are. -/
def tidied : Region → Char → List Char → List Char
  | .string, c, _ => [c]
  | .comment, c, _ => if c = '\n' then [c] else []
  | .code, c, rest =>
    if c = '#' then []
    else if IsGap c then
      if rest.head?.any (IsGap ·) then [] else [' ']
    else if IsMark c then [' ', c, ' ']
    else [c]

/-- The row of blanks inside the string stays, and so does its comma. -/
example : String.ofList (edit tidied .code "F(1,\t\r2) # f\n\"a,  b\"".toList) =
    "F ( 1 ,  2 )  \n\"a,  b\"" := by
  cbv

/-- Nothing is left of a carriage return at the end of a line. -/
def withoutReturn (_ : Region) (c : Char) (rest : List Char) : List Char :=
  if c = '\r' ∧ rest.head? = some '\n' then [] else [c]

/-- An edit that keeps all line breaks and makes no new ones. -/
theorem count_edit {replace : Region → Char → List Char → List Char}
    (h : ∀ region c rest, (replace region c rest).count '\n' = if c = '\n' then 1 else 0)
    (region : Region) (text : List Char) :
    (edit replace region text).count '\n' = text.count '\n' := by
  induction text generalizing region with
  | nil => rfl
  | cons c rest ih =>
    rw [edit, List.count_append, h, ih, List.count_cons, Nat.add_comm]
    simp only [beq_iff_eq]

theorem count_tidied (region : Region) (c : Char) (rest : List Char) :
    (tidied region c rest).count '\n' = if c = '\n' then 1 else 0 := by
  by_cases hbreak : c = '\n'
  · rw [if_pos hbreak, hbreak]
    cases region <;> rfl
  · have hsingle : [c].count '\n' = 0 := List.count_eq_zero.2 (by simp [Ne.symm hbreak])
    have hpadded : [' ', c, ' '].count '\n' = 0 := List.count_eq_zero.2 (by simp [Ne.symm hbreak])
    rw [if_neg hbreak]
    cases region with
    | string => exact hsingle
    | comment =>
      rw [tidied, if_neg hbreak]
      rfl
    | code =>
      simp only [tidied]
      split_ifs
      · rfl
      · rfl
      · rfl
      · exact hpadded
      · exact hsingle

theorem count_withoutReturn (region : Region) (c : Char) (rest : List Char) :
    (withoutReturn region c rest).count '\n' = if c = '\n' then 1 else 0 := by
  have hsingle : [c].count '\n' = if c = '\n' then 1 else 0 := by
    rw [List.count_singleton]
    simp only [beq_iff_eq]
  unfold withoutReturn
  by_cases hend : c = '\r' ∧ rest.head? = some '\n'
  · rw [if_pos hend, hend.1]
    rfl
  · rw [if_neg hend]
    exact hsingle

/-! ### Scanning words, blanks and marks -/

/-- Behind a character that both texts have, only what follows matters. -/
theorem scan_cons_congr (h : ∀ line, scan (mode.step c).2 line tail = scan (mode.step c).2 line rest)
    (line : Nat) : scan mode line (c :: tail) = scan mode line (c :: rest) := by
  rw [scan_cons, scan_cons, h]

/-- A blank ends a word. -/
theorem scan_gap (hc : IsGap c) (pending : List Char) (line : Nat) (rest : List Char) :
    scan (.code pending) line (c :: rest) = (do
      let word ← flush line pending
      let later ← scan (.code []) line rest
      pure (word ++ later)) := by
  rcases hc with rfl | rfl | rfl <;> rw [scan] <;> rfl

/-- A mark ends a word and is one. -/
theorem scan_mark (hc : IsMark c) (pending : List Char) (line : Nat) (rest : List Char) :
    scan (.code pending) line (c :: rest) = (do
      let word ← flush line pending
      let mark ← flush line [c]
      let later ← scan (.code []) line rest
      pure (word ++ mark ++ later)) := by
  rcases hc with rfl | rfl | rfl <;> rw [scan] <;> rfl

/-- In a comment, only line breaks matter. -/
theorem scan_comment_cons (hc : c ≠ '\n') (line : Nat) (rest : List Char) :
    scan .comment line (c :: rest) = scan .comment line rest := by
  rw [scan, if_neg hc]

/-- What ends a word, ends it behind a blank as well. -/
theorem scan_gap_cons {next : Char} (hc : IsGap c) (hnext : IsGap next ∨ IsMark next ∨ next = '\n')
    (pending : List Char) (line : Nat) (rest : List Char) :
    scan (.code pending) line (c :: next :: rest) = scan (.code pending) line (next :: rest) := by
  rw [scan_gap hc]
  rcases hnext with hnext | hnext | rfl
  · simp only [scan_gap hnext, flush_nil, pure_bind, List.nil_append, bind_pure]
  · simp only [scan_mark hnext, flush_nil, pure_bind, List.nil_append, bind_assoc,
      List.append_assoc]
  · rw [scan, scan]
    simp [ScanMode.pending, flush_nil]

/-- Around a mark, blanks may stand. -/
theorem scan_padded (hc : IsMark c) (pending : List Char) (line : Nat) (rest : List Char) :
    scan (.code pending) line (' ' :: c :: ' ' :: rest) = scan (.code pending) line (c :: rest) := by
  rw [scan_gap_cons (.inl rfl) (.inr (.inl hc)), scan_mark hc, scan_mark hc, scan_gap (.inl rfl)]
  simp only [flush_nil, pure_bind, List.nil_append, bind_pure]

/-- Behind the code of a line, there may be a comment. -/
theorem scan_uncommented (h : tail = [] ∨ tail.head? = some '\n') (pending : List Char) (line : Nat) :
    scan (.code pending) line tail = scan (.code pending) line ('#' :: tail) := by
  have hcomment : scan (.code pending) line ('#' :: tail) = (do
      let word ← flush line pending
      let later ← scan .comment line tail
      pure (word ++ later)) := by
    rw [scan]
    rfl
  rw [hcomment]
  rcases h with rfl | h
  · simp [scan, ScanMode.pending, flush_nil]
  · obtain ⟨rest, rfl⟩ := List.head?_eq_some_iff.1 h
    rw [scan, scan]
    simp [ScanMode.pending, flush_nil]

/-! ### Scanning edited texts -/

/-- A comment is deleted up to the end of its line. -/
theorem head?_edit_comment (text : List Char) :
    edit tidied .comment text = [] ∨ (edit tidied .comment text).head? = some '\n' := by
  induction text with
  | nil => exact .inl rfl
  | cons c rest ih =>
    by_cases hc : c = '\n'
    · right
      rw [hc]
      rfl
    · have hnext : Region.comment.next c = .comment := by
        unfold Region.next
        rw [if_neg hc]
      rw [edit, hnext, tidied, if_neg hc, List.nil_append]
      exact ih

theorem scan_tidied (mode : ScanMode) (line : Nat) (text : List Char) :
    scan mode line (edit tidied mode.region text) = scan mode line text := by
  induction text generalizing mode line with
  | nil => rfl
  | cons c rest ih =>
    -- The text behind the character is scanned like what is left of it.
    have hlater (line : Nat) : scan (mode.step c).2 line (edit tidied (mode.region.next c) rest) =
        scan (mode.step c).2 line rest := by
      rw [← region_step]
      exact ih (mode.step c).2 line
    have hkept := scan_cons_congr hlater line
    rw [edit]
    cases mode with
    | text pending => exact hkept
    | comment =>
      simp only [ScanMode.region, tidied]
      by_cases hc : c = '\n'
      · rw [if_pos hc]
        exact hkept
      · rw [if_neg hc, List.nil_append, ← hkept, scan_comment_cons hc]
        rfl
    | code pending =>
      simp only [ScanMode.region, tidied] at hkept ⊢
      by_cases hhash : c = '#'
      · rw [if_pos hhash, List.nil_append, ← hkept, hhash]
        exact scan_uncommented (head?_edit_comment rest) pending line
      rw [if_neg hhash]
      by_cases hgap : IsGap c
      · rw [if_pos hgap]
        by_cases hnext : rest.head?.any (IsGap ·) = true
        · -- The next blank ends the word that is pending here.
          have hcode : Region.code.next c = .code := by
            rcases hgap with rfl | rfl | rfl <;> rfl
          rw [if_pos hnext, List.nil_append, hcode]
          refine (ih (.code pending) line).trans (Eq.symm ?_)
          cases rest with
          | nil => cases hnext
          | cons next more =>
            exact scan_gap_cons hgap (.inl (of_decide_eq_true hnext)) pending line more
        · rw [if_neg hnext, ← hkept]
          exact (scan_gap (.inl rfl) pending line _).trans (scan_gap hgap pending line _).symm
      rw [if_neg hgap]
      by_cases hmark : IsMark c
      · rw [if_pos hmark, ← hkept]
        exact scan_padded hmark pending line _
      · rw [if_neg hmark]
        exact hkept

theorem scan_withoutReturn (mode : ScanMode) (line : Nat) (text : List Char)
    (h : BreaksOutsideStrings mode.region text) :
    scan mode line (edit withoutReturn mode.region text) = scan mode line text := by
  induction text generalizing mode line with
  | nil => rfl
  | cons c rest ih =>
    obtain ⟨-, hrest⟩ := h
    rw [edit, withoutReturn]
    by_cases hend : c = '\r' ∧ rest.head? = some '\n'
    · obtain ⟨rfl, hhead⟩ := hend
      obtain ⟨more, rfl⟩ := List.head?_eq_some_iff.1 hhead
      rw [if_pos ⟨rfl, hhead⟩, List.nil_append]
      cases mode with
      | text pending =>
        -- The string would be open at the end of its line.
        exact absurd rfl (hrest.1 rfl)
      | comment =>
        rw [scan_comment_cons (by decide)]
        exact ih .comment line hrest
      | code pending =>
        rw [scan_gap_cons (.inr (.inr rfl)) (.inr (.inr rfl))]
        exact ih (.code pending) line hrest
    · rw [if_neg hend]
      have hlater (line : Nat) :
          scan (mode.step c).2 line (edit withoutReturn (mode.region.next c) rest) =
            scan (mode.step c).2 line rest := by
        rw [← region_step] at hrest ⊢
        exact ih (mode.step c).2 line hrest
      exact scan_cons_congr hlater line

/-! ### Main result -/

/-- The tokens of a text follow from what scanning it gives and from its line breaks. -/
theorem tokenize_congr {source : String}
    (hscan : scan (.code []) 1 text = scan (.code []) 1 source.toList)
    (hcount : text.count '\n' = source.toList.count '\n') :
    tokenize (String.ofList text) = tokenize source := by
  rw [tokenize_eq, tokenize_eq, String.toList_ofList, hscan, lastLine, lastLine, hcount]

/-- A text has the same tokens, or the same error, without its comments, with one blank for a row of
    them and with blanks around every mark.  If no string is open at a line break, the carriage
    returns before the line breaks do not matter either. -/
theorem tokenize_tidied (source : String) :
    tokenize (String.ofList (edit tidied .code source.toList)) = tokenize source ∧
      (BreaksOutsideStrings .code source.toList →
        tokenize (String.ofList (edit withoutReturn .code source.toList)) = tokenize source) := by
  constructor
  · exact tokenize_congr (scan_tidied (.code []) 1 source.toList) (count_edit count_tidied _ _)
  · intro hclosed
    exact tokenize_congr (scan_withoutReturn (.code []) 1 source.toList hclosed)
      (count_edit count_withoutReturn _ _)

/-- Inside its string, the text keeps a carriage return and a `#`. -/
theorem tokenize_tidied_returns :
    BreaksOutsideStrings .code "A = \"\r#\" # \"\r\n(A)\r\n".toList ∧
      tokenize "A = \"\r#\" # \"\n(A)\n" = tokenize "A = \"\r#\" # \"\r\n(A)\r\n" := by
  have hclosed : BreaksOutsideStrings .code "A = \"\r#\" # \"\r\n(A)\r\n".toList := by decide
  have hedited : String.ofList (edit withoutReturn .code "A = \"\r#\" # \"\r\n(A)\r\n".toList) =
      "A = \"\r#\" # \"\n(A)\n" := by decide
  have hsame := (tokenize_tidied "A = \"\r#\" # \"\r\n(A)\r\n").2 hclosed
  rw [hedited] at hsame
  exact ⟨hclosed, hsame⟩

end CalcLang
