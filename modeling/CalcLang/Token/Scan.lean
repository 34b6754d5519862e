import CalcLang.Error
import CalcLang.Log
import CalcLang.Token.Basic
import CalcLang.Token.Word

/-!
# From text to tokens

Words are separated by blanks.  Parentheses and commas are words of their own, a `#` starts a comment
that runs to the end of the line, and a quote starts a string that keeps every character up to the
next quote.  Neither a comment nor a string reaches into the next line.

* `scan`: the tokens of a text, line breaks included, read from left to right.
* `tokenize`: the tokens of a program: the line breaks at both ends are dropped and the end of the
  program is marked.
-/

namespace CalcLang

/-- What is being read. -/
inductive ScanMode where
  /-- Words; the characters of the pending word, last one first. -/
  | code (pending : List Char)
  /-- A string; its characters so far, last one first. -/
  | text (pending : List Char)
  /-- A comment. -/
  | comment
  deriving DecidableEq, Repr

namespace ScanMode

/-- The characters read but not yet classified, last one first. -/
def pending : ScanMode → List Char
  | code pending | text pending => pending
  | comment => []

end ScanMode

/-- The token of a pending word, given last character first.  No characters make no token. -/
def flush (line : Nat) : List Char → Logged LexicalError (List Token)
  | [] => pure []
  | last :: before => do
    let word := (last :: before).reverse
    match Word.kind? word with
    | none => .fail ⟨String.ofList word, line⟩
    | some kind =>
      let token := Token.ofWord kind word line
      .note .trace ("line " ++ toString line ++ ": " ++ token.display)
      pure [token]

/-- The tokens of a text that starts on a given line in a given mode. -/
def scan (mode : ScanMode) (line : Nat) : List Char → Logged LexicalError (List Token)
  | [] => flush line mode.pending
  | c :: rest => do
    if c = '\n' then
      let word ← flush line mode.pending
      let later ← scan (.code []) (line + 1) rest
      pure (word ++ Token.lineBreak line :: later)
    else
      match mode with
      | .comment => scan .comment line rest
      | .text pending =>
        if c = '"' then
          let word ← flush line (c :: pending)
          let later ← scan (.code []) line rest
          pure (word ++ later)
        else
          scan (.text (c :: pending)) line rest
      | .code pending =>
        if c = '#' then
          let word ← flush line pending
          let later ← scan .comment line rest
          pure (word ++ later)
        else if c = ' ' ∨ c = '\t' ∨ c = '\r' then
          let word ← flush line pending
          let later ← scan (.code []) line rest
          pure (word ++ later)
        else if c = '(' ∨ c = ')' ∨ c = ',' then
          let word ← flush line pending
          let mark ← flush line [c]
          let later ← scan (.code []) line rest
          pure (word ++ mark ++ later)
        else if c = '"' then
          let word ← flush line pending
          let later ← scan (.text [c]) line rest
          pure (word ++ later)
        else
          scan (.code (c :: pending)) line rest

/-- A token that ends a physical line inside a program. -/
def Token.isLineBreak (token : Token) : Bool :=
  token.kind == .lineBreak

/-- A list of tokens without the line breaks at its two ends. -/
def trimLineBreaks (tokens : List Token) : List Token :=
  ((tokens.dropWhile Token.isLineBreak).reverse.dropWhile Token.isLineBreak).reverse

/-- The number of the last line of a text, counted from one. -/
def lastLine (text : List Char) : Nat :=
  1 + text.count '\n'

/-- The tokens of a program, with the records of reading it. -/
def tokenizeLogged (source : String) : Logged LexicalError (List Token) := do
  let text := source.toList
  let scanned ← scan (.code []) 1 text
  let tokens := trimLineBreaks scanned ++ [Token.endOfFile (lastLine text)]
  .note .debug ("tokenized " ++ toString tokens.length ++ " tokens over " ++
    toString (lastLine text) ++ " lines")
  pure tokens

/-- The tokens of a program. -/
def tokenize (source : String) : Except LexicalError (List Token) :=
  (tokenizeLogged source).result

end CalcLang
