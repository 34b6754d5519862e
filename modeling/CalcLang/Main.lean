import CalcLang.CommandLine.Run

/-!
# The program

Reads the arguments and the file, prints the report, and opens the viewer if it is asked for.
-/

namespace CalcLang

/-- What a path leads to. -/
def readPath (path : String) : IO FileContent := do
  try
    let bytes ← IO.FS.readBinFile path
    pure (match String.fromUTF8? bytes with
      | some source => .text source
      | none => .notText)
  catch
    | .noFileOrDirectory .. => pure .missing
    | .inappropriateType .. => pure .directory
    | _ => pure .forbidden

/-- Draws the viewer and feeds it keys, a line of them at a time, until it closes or there are no more
    keys. -/
partial def showViewer (viewer : Viewer) (input output : IO.FS.Stream) : IO Unit := do
  let drawn := viewer.settle 24
  for row in drawn.draw 80 24 do
    output.putStrLn (String.ofList (Picture.rowText row))
  output.flush
  if !drawn.quitting then
    let line ← input.getLine
    if !line.isEmpty then
      let keys := line.toList.filter (· != '\n')
      showViewer (keys.foldl (fun v c => v.handle (.press (.char c))) drawn) input output

/-- Runs a command line. -/
def runProgram (arguments : List String) : IO UInt32 := do
  let contents ← arguments.mapM fun path => do pure (path, ← readPath path)
  let report := runArguments "tython" arguments fun path => (contents.lookup path).getD .missing
  IO.print (printedText report.output)
  IO.eprint (printedText report.errors)
  if let some viewer := report.viewer then
    showViewer viewer (← IO.getStdin) (← IO.getStdout)
  pure (UInt32.ofNat report.code)

end CalcLang

/-- The program's entry point. -/
def main (arguments : List String) : IO UInt32 := CalcLang.runProgram arguments
