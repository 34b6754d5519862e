import CalcLang.Program.Compilation
import CalcLang.Screen.Picture
import CalcLang.Text.Wrap
import CalcLang.View.Palette
import CalcLang.View.Scroll

/-!
# Tree pane

The tree of a program, one line per node, or the error that there is instead.
-/

namespace CalcLang.TreePane

/-- The style of a node of some kind. -/
def nodeStyle : Kind → Style
  | .phrase _ => .colored Palette.phrase
  | .literal .char => .colored Palette.string
  | .literal .string => .colored Palette.string
  | .literal _ => .colored Palette.number
  | .var _ => .colored Palette.text
  | .dataType _ => .colored Palette.dataType
  | .function _ => .colored Palette.function
  | .operator _ => .colored Palette.symbol
  | .comparison _ => .colored Palette.symbol
  | .connective _ => .colored Palette.symbol
  | _ => Style.inBold (.colored Palette.keyword)

/-- One line of the pane: the label of a node, indented by its depth, and its source line. -/
def row (depth : Nat) (node : Node) : List Fragment := [
  .ofString (Node.indent depth) .plain,
  .ofString node.label (nodeStyle node.kind),
  .ofString ("  :" ++ toString node.line) (.colored Palette.comment)]

/-- All lines of the pane. -/
def rows (root : Node) : List (List Fragment) :=
  root.walk.map fun (depth, node) => row depth node

/-- The offset at which the pane is drawn.  Without a tree it is kept as it is. -/
def offset (height : Nat) (outcome : Except ParseError Compilation) (asked : Nat) : Nat :=
  match outcome with
  | .ok compilation => clampOffset compilation.root.size (visibleRows height) asked
  | .error _ => asked

/-- The inside of the pane when it shows a tree. -/
def treeField (root : Node) (offset visible : Nat) (width height : Nat) : Picture :=
  .padded 1 0 .plain
    (.ofLines (width - 1) height .plain (window offset visible (rows root)))

/-- The inside of the pane when it shows an error. -/
def errorField (error : ParseError) (width height : Nat) : Picture :=
  let style : Style := .colored Palette.error
  let lines := Text.wrap (width - 2) error.message.toList
  .padded 1 1 style
    (.ofLines (width - 2) height style (lines.map fun line => [⟨line, .plain⟩]))

/-- The pane at an offset that is in range. -/
def draw (width height : Nat) (focused : Bool) (outcome : Except ParseError Compilation)
    (offset : Nat) : Picture :=
  .framed width height (Palette.frame focused) " Syntax Tree " <|
    match outcome with
    | .ok compilation => treeField compilation.root offset (visibleRows height)
    | .error error => errorField error

end CalcLang.TreePane
