import CalcLang.Text.Blank
import CalcLang.Token.Word
import CalcLang.View.Palette

/-!
# Highlighting

A source line is shown in colours that say how its words are classified.

* `wordStyle`: the style of a word.
* `highlight`: a source line as styled pieces.
-/

namespace CalcLang

/-- The style of a word of some kind. -/
def kindStyle : Kind → Style
  | .dataType _ => .colored Palette.dataType
  | .function _ => .colored Palette.function
  | .var _ => .colored Palette.text
  | .literal .char => .colored Palette.string
  | .literal .string => .colored Palette.string
  | .literal _ => .colored Palette.number
  | .operator _ => .colored Palette.symbol
  | .comparison _ => .colored Palette.symbol
  | .assign => .colored Palette.symbol
  | _ => Style.inBold (.colored Palette.keyword)

/-- The style of a word.  A word that is none of the language is underlined. -/
def wordStyle (word : List Char) : Style :=
  match Word.kind? word with
  | some kind => kindStyle kind
  | none => Style.withUnderline (.colored Palette.error)

/-- What is being read of a line. -/
inductive HighlightMode where
  /-- Words; the characters of the pending word, last one first. -/
  | code (pending : List Char)
  /-- A string; its characters so far, last one first. -/
  | text (pending : List Char)
  deriving DecidableEq, Repr

/-- The piece of a pending word, given last character first.  No characters make no piece. -/
def wordFragment (pending : List Char) : List Fragment :=
  if pending.isEmpty then [] else [⟨pending.reverse, wordStyle pending.reverse⟩]

/-- The piece of a string, given last character first. -/
def stringFragment (pending : List Char) : Fragment := ⟨pending.reverse, .colored Palette.string⟩

/-- The pieces of the rest of a line that is read in a given mode. -/
def highlightFrom : HighlightMode → List Char → List Fragment
  | .code pending, [] => wordFragment pending
  | .text pending, [] => [stringFragment pending]
  | .text pending, c :: rest =>
    if c = '"' then stringFragment (c :: pending) :: highlightFrom (.code []) rest
    else highlightFrom (.text (c :: pending)) rest
  | .code pending, c :: rest =>
    if c = '#' then
      wordFragment pending ++ [⟨c :: rest, .colored Palette.comment⟩]
    else if c = '"' then
      wordFragment pending ++ highlightFrom (.text [c]) rest
    else if c = '(' ∨ c = ')' ∨ c = ',' then
      wordFragment pending ++ ⟨[c], .colored Palette.symbol⟩ :: highlightFrom (.code []) rest
    else if Text.isBlank c then
      wordFragment pending ++ ⟨[c], .plain⟩ :: highlightFrom (.code []) rest
    else
      highlightFrom (.code (c :: pending)) rest

/-- A source line as styled pieces. -/
def highlight (line : List Char) : List Fragment := highlightFrom (.code []) line

end CalcLang
