import CalcLang.Text.Blank

/-!
# Word wrap

A text is broken into lines of a given width.  Lines break at blanks, which are dropped there; a word
that is longer than a line is cut.

* `WrapState.feed`: takes in one character.
* `wrap`: the lines of a text.
-/

namespace CalcLang.Text

/-- A blank at which a line may break.  The no-break space is none. -/
def isBreak (c : Char) : Bool := isBlank c && c != '\u00a0'

/-- A text that has been wrapped up to some character. -/
structure WrapState where
  /-- The lines that are full. -/
  full : List (List Char)
  /-- The line being filled. -/
  line : List Char
  /-- The blanks behind that line. -/
  blanks : List Char
  /-- The word behind those blanks. -/
  word : List Char
  /-- The last character taken in belongs to a word. -/
  afterWord : Bool
  deriving DecidableEq, Repr

namespace WrapState

/-- Nothing has been taken in. -/
def start : WrapState := ⟨[], [], [], [], false⟩

/-- Puts the word on the line.  The blanks before it are kept unless they would open the line. -/
def settle (s : WrapState) : WrapState :=
  { s with
    line := (if s.line.isEmpty then [] else s.line ++ s.blanks) ++ s.word
    blanks := []
    word := [] }

/-- The word is complete, or nothing more fits before it. -/
def isSettled (width : Nat) (s : WrapState) (c : Char) : Bool :=
  (s.afterWord && isBreak c) ||
    (s.line.isEmpty && (width < s.word.length + 1 || width < s.blanks.length + 1))

/-- No further character fits. -/
def isFull (width : Nat) (s : WrapState) : Bool :=
  width ≤ s.line.length || width ≤ s.line.length + s.blanks.length + s.word.length

/-- Ends the line.  Blanks that would still have fitted on it are dropped. -/
def breakLine (width : Nat) (s : WrapState) : WrapState :=
  { s with
    full := s.full ++ [s.line]
    line := []
    blanks := s.blanks.drop (width - s.line.length) }

/-- Puts a character behind the line. -/
def push (s : WrapState) (c : Char) : WrapState :=
  if isBreak c then
    { s with blanks := s.blanks ++ [c], afterWord := false }
  else
    { s with word := s.word ++ [c], afterWord := true }

/-- Takes in one character.  A blank at which a line breaks is dropped. -/
def feed (width : Nat) (s : WrapState) (c : Char) : WrapState :=
  let s := if s.isSettled width c then s.settle else s
  if s.isFull width then
    let s := s.breakLine width
    if isBreak c && s.blanks.isEmpty then s else s.push c
  else
    s.push c

/-- The lines once the whole text has been taken in.  There is at least one. -/
def finish (s : WrapState) : List (List Char) :=
  let blankLine := if s.line.isEmpty && s.word.isEmpty && !s.blanks.isEmpty then [[]] else []
  let last := s.settle.line
  let lines := s.full ++ blankLine ++ (if last.isEmpty then [] else [last])
  if lines.isEmpty then [[]] else lines

end WrapState

/-- The lines of a text, broken at a given width. -/
def wrap (width : Nat) (text : List Char) : List (List Char) :=
  (text.foldl (WrapState.feed width) .start).finish

end CalcLang.Text
