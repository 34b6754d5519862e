import CalcLang.Screen.Picture
import CalcLang.Text.Lines
import CalcLang.Text.Pad
import CalcLang.View.Highlight
import CalcLang.View.Scroll

/-!
# Source pane

The program text with line numbers.  The line of an error is set off and marked.
-/

namespace CalcLang.SourcePane

/-- The number of a line, in four columns or more, and a blank. -/
def lineNumber (n : Nat) (style : Style) : Fragment := .ofString (Text.flushRight 4 n ++ " ") style

/-- The mark behind the line of an error. -/
def errorMark : Fragment := .ofString " ◀" (.colored Palette.error)

/-- One line of the pane. -/
def row (isError : Bool) (number : Nat) (line : List Char) : List Fragment :=
  let content := highlight line
  if isError then
    lineNumber number (Style.inBold (.colored Palette.error)) ::
      content.map (fun piece => { piece with style := piece.style.withBackground Palette.band }) ++
      [errorMark]
  else
    lineNumber number (.colored Palette.comment) :: content

/-- All lines of the pane, where the line of an error is given by its number. -/
def rows (errorLine : Option Nat) (source : String) : List (List Fragment) :=
  (Text.lines source.toList).mapIdx fun index line =>
    row (errorLine == some (index + 1)) (index + 1) line

/-- The offset at which the pane is drawn. -/
def offset (height : Nat) (source : String) (asked : Nat) : Nat :=
  clampOffset (Text.lines source.toList).length (visibleRows height) asked

/-- What an empty program shows. -/
def emptyText : List Fragment := [.ofString "(empty program)" .plain]

/-- The pane at an offset that is in range. -/
def draw (width height : Nat) (focused : Bool) (errorLine : Option Nat) (source : String)
    (offset : Nat) : Picture :=
  let shown := window offset (visibleRows height) (rows errorLine source)
  .framed width height (Palette.frame focused) " Source " fun width height =>
    if shown.isEmpty then .ofLines width height (.colored .darkGray) [emptyText]
    else .ofLines width height .plain shown

end CalcLang.SourcePane
