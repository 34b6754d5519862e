import CalcLang.Error
import CalcLang.Log
import CalcLang.Options
import CalcLang.Token.Scan

/-!
# Sessions

A session reads one program.  It holds the tokens already passed, the tokens ahead, and what reading
has left behind so far.  A failed reading keeps its session: the position at which it failed, the
notes and the log are still there.

* `Session`: the state, with its elementary moves.
* `Reading`: a computation on a session that may fail.
-/

namespace CalcLang

/-- The state of reading one program. -/
structure Session where
  /-- How the program is read. -/
  options : ReadOptions
  /-- The tokens already passed, last one first. -/
  passed : List Token
  /-- The tokens ahead, without the one that ends the program. -/
  ahead : List Token
  /-- The line on which the program ends. -/
  endLine : Nat
  /-- The notes so far, oldest first. -/
  diagnostics : List Diagnostic
  /-- The log so far, oldest first. -/
  log : List Record
  deriving DecidableEq, Repr

namespace Session

/-! ### Tokens -/

/-- The token that ends the program. -/
def terminator (s : Session) : Token := .endOfFile s.endLine

/-- All tokens of the program. -/
def tokens (s : Session) : List Token := s.passed.reverse ++ s.ahead ++ [s.terminator]

/-- A session at the start of a list of tokens.  The end of the program is put behind the last token
    if it is missing there. -/
def ofTokens (options : ReadOptions) (tokens : List Token) : Session :=
  match tokens.getLast? with
  | none => ⟨options, [], [], 1, [], []⟩
  | some last =>
    let ahead := if last.kind = .endOfFile then tokens.dropLast else tokens
    ⟨options, [], ahead, last.line, [], []⟩

/-- A session at the start of a program text, with the records of cutting the text into tokens. -/
def ofSource (options : ReadOptions) (source : String) : Logged LexicalError Session := do
  let tokens ← tokenizeLogged source
  pure (ofTokens options tokens)

/-- A session at the start of the same program. -/
def restart (s : Session) : Session := ofTokens s.options s.tokens

/-! ### Looking ahead -/

/-- The next token. -/
def next (s : Session) : Token := s.ahead.headD s.terminator

/-- The tokens ahead on the line of the next one. -/
def restOfLine (s : Session) : List Token := s.ahead.takeWhile (!·.kind.endsLine)

/-- The next token opens a physical line. -/
def atLineStart (s : Session) : Bool :=
  match s.passed with
  | [] => true
  | previous :: _ => previous.isLineBreak

/-! ### Moving on -/

/-- Passes the next tokens, as many as given. -/
def skip (count : Nat) (s : Session) : Session :=
  { s with passed := (s.ahead.take count).reverse ++ s.passed, ahead := s.ahead.drop count }

/-- Passes the next token, unless it ends the program. -/
def advance (s : Session) : Session :=
  if s.next.kind = .endOfFile then s else s.skip 1

/-- Passes the line breaks ahead. -/
def skipLineBreaks (s : Session) : Session :=
  s.skip (s.ahead.takeWhile Token.isLineBreak).length

end Session

/-! ### Readings -/

/-- A computation on a session that may fail, and that keeps the session if it does. -/
abbrev Reading := EStateM ParseError Session

namespace Reading

/-- The next token. -/
def peek : Reading Token := do
  pure (← get).next

/-- The next token, which is passed. -/
def take : Reading Token := do
  let session ← get
  set session.advance
  pure session.next

/-- The next token, which is passed if its kind is allowed and at fault otherwise. -/
def expect (allowed : Kind → Bool) (fault : Fault) : Reading Token := do
  let token ← peek
  if allowed token.kind then take else throw (.pinned token fault)

/-- Goes on only if a condition holds. -/
def require (holds : Bool) (error : ParseError) : Reading Unit :=
  if holds then pure () else throw error

/-- Adds records to the log. -/
def record (records : List Record) : Reading Unit :=
  modify fun s => { s with log := s.log ++ records }

/-- Adds a record to the log if reading is traced. -/
def trace (text : String) : Reading Unit := do
  if (← get).options.debug then record [⟨.debug, text⟩]

/-- Adds a note. -/
def note (diagnostic : Diagnostic) : Reading Unit :=
  modify fun s => { s with diagnostics := s.diagnostics ++ [diagnostic] }

/-- The result of a computation of its own, whose records join the log. -/
def ofLogged {α : Type} (action : Logged ParseError α) : Reading α := do
  record action.records
  match action.result with
  | .ok value => pure value
  | .error error => throw error

end Reading

end CalcLang
