import CalcLang.Screen.Picture
import CalcLang.View.Palette

/-!
# Status bar

A badge with counts and a message on the left, the keys on the right.
-/

namespace CalcLang

/-- What the status bar reports. -/
structure Status where
  /-- The message. -/
  message : String
  /-- Number of statements of the program. -/
  statements : Nat
  /-- Number of notes. -/
  diagnostics : Nat
  /-- The program could not be compiled. -/
  failed : Bool
  deriving DecidableEq, Repr

namespace StatusBar

/-- The style beneath the whole bar. -/
def base : Style := .onto Palette.band

/-- The badge. -/
def badge (status : Status) : Fragment :=
  let style (color : Color) : Style := Style.inBold ((Style.onto color).atop (.colored .black))
  if status.failed then
    .ofString " ERROR " (style Palette.error)
  else if 0 < status.diagnostics then
    .ofString
      (" " ++ toString status.statements ++ " stmts, " ++ toString status.diagnostics ++ " skipped ")
      (style Palette.warning)
  else
    .ofString (" " ++ toString status.statements ++ " stmts ") (style Palette.success)

/-- The left part: the badge and the message. -/
def report (status : Status) : List Fragment := [
  badge status,
  .ofString " | " (.colored Palette.comment),
  .ofString (" " ++ status.message ++ " ")
    (.colored (if status.failed then Palette.error else Palette.text))]

/-- A key. -/
def key (name : String) : Fragment :=
  .ofString name ((Style.onto Palette.comment).atop (.colored .black))

/-- What a key does. -/
def action (name : String) : Fragment := .ofString name (.colored Palette.text)

/-- The line between two keys. -/
def separator : Fragment := .ofString "│" (.colored Palette.comment)

/-- The right part: the keys. -/
def keys : List Fragment := [
  key " ⇥ ", action " focus ", separator, action " ",
  key " ↑/↓ ", action " scroll ", separator, action " ",
  key " PgUp/PgDn ", action " page ", separator, action " ",
  key "q", action " quit "]

/-- Number of columns of the left part: three fifths of the bar, rounded. -/
def reportWidth (width : Nat) : Nat := (60 * width + 50) / 100

/-- A row flush right if it fits, and cut if it does not. -/
def flushRight (width : Nat) (row : List Cell) : List Cell :=
  Picture.blankRow (width - row.length) base ++ row.take width

/-- The bar.  Rows below the first one are blank. -/
def draw (width height : Nat) (status : Status) : Picture :=
  let left := reportWidth width
  let first := Picture.fitRow left base (Picture.cells base (report status)) ++
    flushRight (width - left) (Picture.cells base keys)
  (first :: List.replicate (height - 1) (Picture.blankRow width base)).take height

end StatusBar

end CalcLang
