import CalcLang.Options

/-!
# Arguments

The command line names one file and any number of options.

* `Command.ofArguments`: what the arguments ask for.
* `usage`: the help text.
-/

namespace CalcLang

/-- What the command line asks for. -/
structure Command where
  /-- The program to read. -/
  file : Option String
  /-- Print the tokens. -/
  tokens : Bool
  /-- Print the tree. -/
  tree : Bool
  /-- Open the viewer. -/
  view : Bool
  /-- How the program is read. -/
  options : ReadOptions
  deriving DecidableEq, Repr

/-- Why a command line cannot be followed. -/
inductive UsageError where
  /-- An option that does not exist. -/
  | unknownOption (option : String)
  /-- A second file. -/
  | unexpectedArgument (argument : String)
  /-- No file at all. -/
  | noFile
  deriving DecidableEq, Repr

/-- Wording of a usage error. -/
def UsageError.message : UsageError → String
  | .unknownOption option => "Unknown option '" ++ option ++ "'"
  | .unexpectedArgument argument => "Unexpected argument '" ++ argument ++ "'"
  | .noFile => "No input file provided"

namespace Command

/-- Nothing has been asked for. -/
def start : Command := ⟨none, false, false, false, .default⟩

/-- An argument that starts with two dashes is an option. -/
def isOption (argument : String) : Bool :=
  match argument.toList with
  | '-' :: '-' :: _ => true
  | _ => false

/-- Takes in one argument. -/
def add (command : Command) (argument : String) : Except UsageError Command :=
  match argument with
  | "--tokens" => .ok { command with tokens := true }
  | "--tree" => .ok { command with tree := true }
  | "--view" => .ok { command with view := true }
  | "--strict" =>
    .ok { command with
      options := { command.options with unknownStatements := .reject, requireTitle := true } }
  | "--legacy-precedence" =>
    .ok { command with options := { command.options with precedence := .legacy } }
  | "--require-header" =>
    .ok { command with options := { command.options with requireTitle := true } }
  | "--debug" => .ok { command with options := { command.options with debug := true } }
  | _ =>
    if isOption argument then
      .error (.unknownOption argument)
    else if command.file.isSome then
      .error (.unexpectedArgument argument)
    else
      .ok { command with file := some argument }

/-- What the arguments ask for.  The tree is printed unless something else is to be shown. -/
def ofArguments (arguments : List String) : Except UsageError Command := do
  let command ← arguments.foldlM add start
  pure { command with tree := command.tree || (!command.tokens && !command.view) }

end Command

/-- The help text, line by line, for a program of a given name. -/
def usage (program : String) : List String := [
  "Usage: " ++ program ++ " <file.ty> [options]",
  "",
  "Options:",
  "  --tokens             Print the token list",
  "  --tree               Print the syntax tree (default)",
  "  --view               Open the source and tree in a terminal viewer",
  "  --strict             Reject unknown statements and require a PROGRAM header",
  "  --legacy-precedence  Fold + and - before * and /",
  "  --require-header     Require PROGRAM \"<name>\" as the first statement",
  "  --debug              Trace tokenizing and parsing to stderr",
  "  --version            Print the version and exit"]

end CalcLang
