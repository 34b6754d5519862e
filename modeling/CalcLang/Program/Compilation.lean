import CalcLang.Program.Block

/-!
# Programs

A program is a block that reaches to the end of the text.  Its tree is named after its title.

* `readProgram`: the tree of a program.
* `compile`: the tree of a program text and the notes on it, or why there is none.
-/

namespace CalcLang

open Reading

/-! ### Titles -/

/-- A text without the quotes at its two ends. -/
def trimQuotes (text : String) : String :=
  String.ofList
    ((text.toList.dropWhile (· == '"')).reverse.dropWhile (· == '"')).reverse

/-- The title of a program with given statements. -/
def title? : List Node → Option String
  | [] => none
  | first :: _ =>
    if first.kind = .keyword .program then
      (first.children.head?.bind Node.value).map trimQuotes
    else
      none

/-- The program of a session starts with its title. -/
def Session.startsWithTitle (s : Session) : Bool :=
  match s.tokens with
  | first :: second :: _ => first.kind == .keyword .program && second.kind == .literal .string
  | _ => false

/-! ### Reading -/

/-- Reads a program, from the next token to the end. -/
def readProgram : Reading Node := do
  let session ← get
  require (!session.options.requireTitle || session.startsWithTitle)
    (.pinned (session.tokens.headD session.terminator) .missingTitle)
  let statements ← readBlock .program
  trace ("parsed " ++ toString statements.length ++ " top-level statements")
  pure ⟨.plain (.phrase .prog) 0, title? statements, statements⟩

/-! ### Compilations -/

/-- A program that has been read. -/
structure Compilation where
  /-- The tree of the program. -/
  root : Node
  /-- The notes on it. -/
  diagnostics : List Diagnostic
  deriving DecidableEq, Repr

/-- Reads the program of a session.  The records are all that the session has left. -/
def Session.compile (s : Session) : Logged ParseError Compilation :=
  match readProgram s with
  | .ok root after => ⟨after.log, .ok ⟨root, after.diagnostics⟩⟩
  | .error error after => ⟨after.log, .error error⟩

/-- Reads a program text, with the records of doing so. -/
def compileLogged (options : ReadOptions) (source : String) : Logged ParseError Compilation := do
  let session ← (Session.ofSource options source).mapError .lexical
  session.compile

/-- Reads a program text. -/
def compile (options : ReadOptions) (source : String) : Except ParseError Compilation :=
  (compileLogged options source).result

end CalcLang
