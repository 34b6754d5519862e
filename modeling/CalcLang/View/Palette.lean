import CalcLang.Screen.Style

/-!
# Palette

The colours of the viewer, by what they stand for.
-/

namespace CalcLang.Palette

/-- Plain text, and variables. -/
def text : Color := .rgb 205 214 244

/-- Operators, comparisons and punctuation. -/
def symbol : Color := .rgb 137 180 250

/-- Keywords. -/
def keyword : Color := .rgb 137 180 250

/-- The badge of a program with skipped tokens. -/
def warning : Color := .rgb 250 179 135

/-- Numbers. -/
def number : Color := .rgb 250 179 135

/-- Comments, line numbers and separators. -/
def comment : Color := .rgb 108 112 134

/-- The badge of a program without fault. -/
def success : Color := .rgb 166 227 161

/-- Strings and characters. -/
def string : Color := .rgb 166 227 161

/-- Errors. -/
def error : Color := .rgb 243 139 168

/-- Functions. -/
def function : Color := .rgb 249 226 175

/-- Data types. -/
def dataType : Color := .rgb 148 226 213

/-- Nodes that stand for a phrase. -/
def phrase : Color := .rgb 203 166 247

/-- Behind the line of an error, and behind the status bar. -/
def band : Color := .rgb 50 50 70

/-- The frame of the pane that has the focus. -/
def focusedFrame : Style := Style.inBold (.colored (.rgb 249 226 175))

/-- The frame of the other pane. -/
def plainFrame : Style := .colored (.rgb 108 112 134)

/-- The frame of a pane. -/
def frame (focused : Bool) : Style := if focused then focusedFrame else plainFrame

end CalcLang.Palette
