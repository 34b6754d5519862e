/-!
# Physical lines

A text is shown line by line.  A line ends at a line feed, or at a carriage return and a line feed; the
end of the text after a line feed starts no further line.
-/

namespace CalcLang.Text

/-- A reversed line without the carriage return at its end. -/
def dropReturn : List Char → List Char
  | '\r' :: rest => rest
  | line => line

/-- The lines of a text that goes on from `pending`, the reversed start of a line. -/
def linesFrom (pending : List Char) : List Char → List (List Char)
  | [] => if pending.isEmpty then [] else [pending.reverse]
  | c :: rest =>
    if c = '\n' then (dropReturn pending).reverse :: linesFrom [] rest
    else linesFrom (c :: pending) rest

/-- The lines of a text. -/
def lines (text : List Char) : List (List Char) := linesFrom [] text

end CalcLang.Text
