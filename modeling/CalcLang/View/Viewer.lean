import CalcLang.View.SourcePane
import CalcLang.View.StatusBar
import CalcLang.View.TreePane

/-!
# Viewer

The viewer shows a program beside its tree.  It is a state that keys change and that is drawn after
each of them.

* `Viewer.opened`: the state at the start.
* `Viewer.handle`: the state after an event.
* `Viewer.settle` and `Viewer.draw`: drawing brings the offsets into range and makes a picture.
-/

namespace CalcLang

/-- One of the two panes. -/
inductive Pane where
  | source
  | tree
  deriving DecidableEq, Repr

/-- The other pane. -/
def Pane.other : Pane → Pane
  | source => tree
  | tree => source

/-- A key of the keyboard. -/
inductive Key where
  | up
  | down
  | left
  | right
  | home
  | last
  | pageUp
  | pageDown
  | tab
  | backTab
  | enter
  | escape
  | function (number : Nat)
  | char (c : Char)
  deriving DecidableEq, Repr

/-- What happens to the viewer. -/
inductive Event where
  /-- A key is pressed. -/
  | press (key : Key)
  /-- A key is held down. -/
  | hold (key : Key)
  /-- A key is released. -/
  | release (key : Key)
  /-- The terminal gets the focus. -/
  | focusGained
  deriving DecidableEq, Repr

/-- The state of the viewer. -/
structure Viewer where
  /-- The program text. -/
  source : String
  /-- The tree of the program, or the error that there is instead. -/
  outcome : Except ParseError Compilation
  /-- The pane that keys scroll. -/
  focus : Pane
  /-- The offset of the source pane. -/
  sourceOffset : Nat
  /-- The offset of the tree pane. -/
  treeOffset : Nat
  /-- The viewer is about to close. -/
  quitting : Bool
  /-- The message in the status bar. -/
  message : String

namespace Viewer

/-! ### Opening -/

/-- The line of the error, if there is an error and it has a line. -/
def errorLine? (outcome : Except ParseError Compilation) : Option Nat :=
  match outcome with
  | .ok _ => none
  | .error error => error.line?

/-- What the status bar says: the error, the first note, or that all is well. -/
def statusMessage (outcome : Except ParseError Compilation) : String :=
  match outcome with
  | .ok compilation =>
    match compilation.diagnostics with
    | [] => "Compiled successfully"
    | first :: _ => first.display
  | .error error => error.summary

/-- The viewer at the start, with the line of an error in view. -/
def opened (source : String) (outcome : Except ParseError Compilation) : Viewer where
  source := source
  outcome := outcome
  focus := .source
  sourceOffset := ((errorLine? outcome).getD 0) - 3
  treeOffset := 0
  quitting := false
  message := statusMessage outcome

/-! ### Keys -/

/-- Number of rows that a page key scrolls. -/
def page : Nat := 10

/-- Changes the offset of the pane that has the focus. -/
def scroll (change : Nat → Nat) (v : Viewer) : Viewer :=
  match v.focus with
  | .source => { v with sourceOffset := change v.sourceOffset }
  | .tree => { v with treeOffset := change v.treeOffset }

/-- The state after a key.  Offsets stay between zero and the largest one. -/
def press (key : Key) (v : Viewer) : Viewer :=
  match key with
  | .char 'q' => { v with quitting := true }
  | .char 'Q' => { v with quitting := true }
  | .escape => { v with quitting := true }
  | .tab => { v with focus := v.focus.other }
  | .backTab => { v with focus := v.focus.other }
  | .up => v.scroll (· - 1)
  | .down => v.scroll fun n => min (n + 1) maxOffset
  | .pageUp => v.scroll (· - page)
  | .pageDown => v.scroll fun n => min (n + page) maxOffset
  | .home => v.scroll fun _ => 0
  | .last => v.scroll fun _ => maxOffset
  | _ => v

/-- The state after an event.  Only the pressing of keys counts. -/
def handle (event : Event) (v : Viewer) : Viewer :=
  match event with
  | .press key => v.press key
  | _ => v

/-! ### Drawing -/

/-- Number of columns of the source pane: eleven twentieths of the screen, rounded. -/
def sourceWidth (width : Nat) : Nat := (55 * width + 50) / 100

/-- What the status bar reports. -/
def status (v : Viewer) : Status :=
  match v.outcome with
  | .ok compilation =>
    ⟨v.message, compilation.root.children.length, compilation.diagnostics.length, false⟩
  | .error _ => ⟨v.message, 0, 0, true⟩

/-- The state once it has been drawn on a screen of some height: the offsets are in range.  The last
    row of the screen is the status bar. -/
def settle (height : Nat) (v : Viewer) : Viewer :=
  { v with
    sourceOffset := SourcePane.offset (height - 1) v.source v.sourceOffset
    treeOffset := TreePane.offset (height - 1) v.outcome v.treeOffset }

/-- The screen, for a state whose offsets are in range. -/
def draw (width height : Nat) (v : Viewer) : Picture :=
  let left := sourceWidth width
  let source := SourcePane.draw left (height - 1) (v.focus == .source) (errorLine? v.outcome)
    v.source v.sourceOffset
  let tree := TreePane.draw (width - left) (height - 1) (v.focus == .tree) v.outcome v.treeOffset
  (source.beside tree).above (StatusBar.draw width (min height 1) v.status)

end Viewer

end CalcLang
