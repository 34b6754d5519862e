import CalcLang.Program.Statement

/-!
# Blocks

A block is a run of statements and line breaks.

* `BlockEnd.step`: what a block does at a token, by its kind.
* `readBlock`: the statements of a block.
-/

namespace CalcLang

open Reading

/-- What a block does at its next token. -/
inductive BlockStep where
  /-- The program ends, and with it the block. -/
  | finish
  /-- The block ends before the token. -/
  | close
  /-- A line break is passed. -/
  | newLine
  /-- A statement is read. -/
  | statement
  deriving DecidableEq, Repr

/-- What a block does at a token of some kind. -/
def BlockEnd.step (stop : BlockEnd) : Kind → BlockStep
  | .endOfFile => .finish
  | .lineBreak => if stop = .line then .close else .newLine
  | .keyword .endWord => if stop = .program then .statement else .close
  | .keyword .elseWord => if stop = .program then .statement else .close
  | _ => .statement

/-- Reads a block in fewer than `room` steps. -/
def readBlockWithin : Nat → BlockEnd → Reading (List Node)
  | 0, _ => pure []
  | room + 1, stop => do
    let session ← get
    match stop.step session.next.kind with
    | .finish =>
      if session.ahead.isEmpty then pure [] else throw (.pinned session.next .prematureEnd)
    | .close => pure []
    | .newLine =>
      let _ ← take
      readBlockWithin room stop
    | .statement =>
      let statement ← readStatement (readBlockWithin room)
      let later ← readBlockWithin room stop
      pure (statement.toList ++ later)

/-- Reads a block.  Every step but the last passes a token, so there are fewer steps than tokens. -/
def readBlock (stop : BlockEnd) : Reading (List Node) := do
  readBlockWithin ((← get).ahead.length + 1) stop

end CalcLang
