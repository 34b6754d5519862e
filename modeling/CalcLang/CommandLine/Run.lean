import CalcLang.CommandLine.Arguments
import CalcLang.Text.Pad
import CalcLang.View.Viewer

/-!
# Running a command

A command reads one file and reports on it.  What is printed and the exit code are a function of the
arguments and of what the file holds.

* `Command.report`: the report on a program text.
* `runArguments`: the report that a command line asks for.
-/

namespace CalcLang

/-- What a path leads to. -/
inductive FileContent where
  /-- Nothing. -/
  | missing
  /-- A directory. -/
  | directory
  /-- A file that may not be read. -/
  | forbidden
  /-- A file whose bytes are no text. -/
  | notText
  /-- A text. -/
  | text (source : String)
  deriving DecidableEq, Repr

/-- What a command prints and how it ends. -/
structure Report where
  /-- The exit code. -/
  code : Nat
  /-- The lines of the output. -/
  output : List String
  /-- The lines of the error output. -/
  errors : List String
  /-- The viewer that is to be opened, if the command asks for it. -/
  viewer : Option Viewer

/-- The text of lines that are printed one after another. -/
def printedText (lines : List String) : String := String.join (lines.map (· ++ "\n"))

/-! ### Parts of a report -/

/-- The name and the version of the program. -/
def versionText : String := "tython 0.1.0"

/-- A record is printed: never with the viewer open, which owns the screen; warnings always; traces of
    reading if they are asked for. -/
def Command.prints (command : Command) (level : Level) : Bool :=
  !command.view &&
    match level with
    | .warn => true
    | .debug => command.options.debug
    | .trace => false

/-- The lines of a log that are printed. -/
def Command.logLines (command : Command) (records : List Record) : List String :=
  (records.filter fun record => command.prints record.level).map fun record =>
    "[" ++ record.level.name ++ "] " ++ record.text

/-- The lines of a token list. -/
def tokenLines (tokens : List Token) : List String :=
  tokens.map fun token => Text.flushRight 4 token.line ++ "  " ++ token.display

/-- The exit code of a failed compilation. -/
def ParseError.exitCode (error : ParseError) : Nat :=
  if error.isUnsupported then 2 else 1

/-! ### Reports -/

/-- The report on a compilation, where something has been printed before. -/
def Command.reportCompilation (command : Command) (output errors : List String)
    (outcome : Except ParseError Compilation) : Report :=
  match outcome with
  | .ok compilation =>
    ⟨0, output ++ (if command.tree then [compilation.root.listing] else []),
      errors ++ compilation.diagnostics.map (fun note => "Warning: " ++ note.display), none⟩
  | .error error => ⟨error.exitCode, output, errors ++ [error.message], none⟩

/-- The exit code once the viewer is closed. -/
def viewerCode (outcome : Except ParseError Compilation) : Nat :=
  match outcome with
  | .ok _ => 0
  | .error error => error.exitCode

/-- The report on a program text. -/
def Command.report (command : Command) (source : String) : Report :=
  let listed : Logged LexicalError (List Token) :=
    if command.tokens then tokenizeLogged source else pure []
  let listedLog := command.logLines listed.records
  match listed.result with
  | .error error => ⟨1, [], listedLog ++ [(ParseError.lexical error).message], none⟩
  | .ok tokens =>
    let compiled := compileLogged command.options source
    let output := tokenLines tokens
    let errors := listedLog ++ command.logLines compiled.records
    if command.view then
      ⟨viewerCode compiled.result, output, errors, some (Viewer.opened source compiled.result)⟩
    else
      command.reportCompilation output errors compiled.result

/-- The report on a command line that cannot be followed. -/
def usageReport (program : String) (error : UsageError) : Report :=
  ⟨1, [], ("Error: " ++ error.message) :: "" :: usage program, none⟩

/-- The report on a failure that needs no help text. -/
def failureReport (message : String) : Report := ⟨1, [], ["Error: " ++ message], none⟩

/-- The report that a command asks for, where `lookup` tells what a path leads to. -/
def Command.run (command : Command) (program : String) (lookup : String → FileContent) : Report :=
  match command.file with
  | none => usageReport program .noFile
  | some path =>
    match lookup path with
    | .missing => failureReport ("File '" ++ path ++ "' not found")
    | .directory =>
      failureReport "Os \x7b code: 21, kind: IsADirectory, message: \"Is a directory\" \x7d"
    | .forbidden =>
      failureReport "Os \x7b code: 13, kind: PermissionDenied, message: \"Permission denied\" \x7d"
    | .notText =>
      failureReport
        "Error \x7b kind: InvalidData, message: \"stream did not contain valid UTF-8\" \x7d"
    | .text source => command.report source

/-- The report that a command line asks for.  Asking for the version comes before all else. -/
def runArguments (program : String) (arguments : List String) (lookup : String → FileContent) :
    Report :=
  if arguments.contains "--version" then
    ⟨0, [versionText], [], none⟩
  else
    match Command.ofArguments arguments with
    | .error error => usageReport program error
    | .ok command => command.run program lookup

end CalcLang
