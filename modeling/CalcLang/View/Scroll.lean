/-!
# Scrolling

A pane shows a window of its rows.  The offset of the window is kept as a number of 64 bits and is
brought into range whenever the pane is drawn.
-/

namespace CalcLang

/-- The largest offset. -/
def maxOffset : Nat := UInt64.size - 1

/-- The number of rows that a pane of some height shows: the frame takes two, and at least one is
    counted. -/
def visibleRows (height : Nat) : Nat := max (height - 2) 1

/-- An offset at which the last page is full. -/
def clampOffset (total visible offset : Nat) : Nat :=
  if visible < total then min offset (total - visible) else 0

/-- The rows that are shown, from a given offset. -/
def window {α : Type} (offset visible : Nat) (rows : List α) : List α :=
  (rows.drop offset).take visible

end CalcLang
