/-!
# Styles

A style says how a character is shown.  What it leaves open is taken from the style beneath it.
-/

namespace CalcLang

/-- A colour. -/
inductive Color where
  /-- A colour given by its three parts, each below 256. -/
  | rgb (red green blue : Nat)
  | black
  | darkGray
  deriving DecidableEq, Repr

/-- How a character is shown. -/
structure Style where
  /-- The colour of the character. -/
  foreground : Option Color
  /-- The colour behind it. -/
  background : Option Color
  /-- Bold type. -/
  bold : Bool
  /-- Underlined. -/
  underlined : Bool
  deriving DecidableEq, Repr

namespace Style

/-- A style that leaves everything open. -/
def plain : Style := ⟨none, none, false, false⟩

/-- A style that gives the colour of the character. -/
def colored (color : Color) : Style := { plain with foreground := some color }

/-- A style that gives the colour behind the character. -/
def onto (color : Color) : Style := { plain with background := some color }

/-- The same style in bold type. -/
def inBold (style : Style) : Style := { style with bold := true }

/-- The same style, underlined. -/
def withUnderline (style : Style) : Style := { style with underlined := true }

/-- The same style on a background. -/
def withBackground (style : Style) (color : Color) : Style :=
  { style with background := some color }

/-- A style on top of another one. -/
def atop (upper lower : Style) : Style where
  foreground := upper.foreground.or lower.foreground
  background := upper.background.or lower.background
  bold := upper.bold || lower.bold
  underlined := upper.underlined || lower.underlined

end Style

/-- A piece of text in one style. -/
structure Fragment where
  /-- The text. -/
  text : List Char
  /-- Its style. -/
  style : Style
  deriving DecidableEq, Repr

/-- A piece of text given as a string. -/
def Fragment.ofString (text : String) (style : Style) : Fragment := ⟨text.toList, style⟩

end CalcLang
