import CalcLang.Screen.Style

/-!
# Pictures

A picture is a grid of styled characters.  Pictures are put together from smaller ones.

* `Picture.ofLines`: text in a field of given size.
* `Picture.framed`: a picture in a frame with a title.
* `Picture.beside` and `Picture.above`: two pictures side by side, or one on top of the other.
-/

namespace CalcLang

/-- A character on the screen. -/
structure Cell where
  /-- The character. -/
  char : Char
  /-- How it is shown. -/
  style : Style
  deriving DecidableEq, Repr

/-- The rows of a field of the screen, from the top, each from the left. -/
abbrev Picture := List (List Cell)

namespace Picture

/-! ### Text -/

/-- The cells of a line of text on top of a style. -/
def cells (base : Style) (line : List Fragment) : List Cell :=
  line.flatMap fun fragment => fragment.text.map fun c => ⟨c, fragment.style.atop base⟩

/-- A row of given width: what is longer is cut, what is shorter is filled with blanks. -/
def fitRow (width : Nat) (base : Style) (row : List Cell) : List Cell :=
  row.take width ++ List.replicate (width - row.length) ⟨' ', base⟩

/-- A blank row. -/
def blankRow (width : Nat) (base : Style) : List Cell := fitRow width base []

/-- A field of given size with lines of text from its top. -/
def ofLines (width height : Nat) (base : Style) (lines : List (List Fragment)) : Picture :=
  (lines.take height).map (fun line => fitRow width base (cells base line)) ++
    List.replicate (height - lines.length) (blankRow width base)

/-! ### Composition -/

/-- A picture with columns of blanks on its two sides. -/
def padded (left right : Nat) (base : Style) (picture : Picture) : Picture :=
  picture.map fun row => blankRow left base ++ row ++ blankRow right base

/-- Two pictures of one height, side by side. -/
def beside (left right : Picture) : Picture := List.zipWith (· ++ ·) left right

/-- Two pictures of one width, one on top of the other. -/
def above (upper lower : Picture) : Picture := upper ++ lower

/-! ### Frames -/

/-- A horizontal edge of a frame, with a title that is cut at the corner. -/
def edge (width : Nat) (style : Style) (left right : Char) (title : String) : List Cell :=
  let line := (title.toList ++ List.replicate width '─').take (width - 2)
  (left :: line ++ [right]).map fun c => ⟨c, style⟩

/-- A framed field of given size, whose inside is drawn to the size that the frame leaves.  A field
    that is too low for both edges has only the upper one. -/
def framed (width height : Nat) (style : Style) (title : String)
    (inside : (width height : Nat) → Picture) : Picture :=
  let upper := edge width style '┌' '┐' title
  let lower := edge width style '└' '┘' ""
  let side : Cell := ⟨'│', style⟩
  match height with
  | 0 => []
  | 1 => [upper]
  | innerHeight + 2 =>
    upper :: (inside (width - 2) innerHeight).map (fun row => side :: row ++ [side]) ++ [lower]

/-! ### Reading a picture -/

/-- The characters of a row. -/
def rowText (row : List Cell) : List Char := row.map Cell.char

/-- A row as pieces of one style each. -/
def rowFragments : List Cell → List Fragment
  | [] => []
  | cell :: rest =>
    match rowFragments rest with
    | [] => [⟨[cell.char], cell.style⟩]
    | fragment :: later =>
      if fragment.style = cell.style then ⟨cell.char :: fragment.text, cell.style⟩ :: later
      else ⟨[cell.char], cell.style⟩ :: fragment :: later

end Picture

end CalcLang
