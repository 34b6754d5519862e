import CalcLang.Token.Kind

/-!
# Tokens

A token is a word of a program together with its category and its line.
-/

namespace CalcLang

/-- A classified word. -/
structure Token where
  /-- The category of the word. -/
  kind : Kind
  /-- The text of the word, for the kinds that keep it. -/
  value : Option String
  /-- The physical line of the word, counted from one. -/
  line : Nat
  deriving DecidableEq, Repr

namespace Token

/-- A token of a kind that keeps no text. -/
def plain (kind : Kind) (line : Nat) : Token :=
  ⟨kind, none, line⟩

/-- The token that ends a physical line. -/
def lineBreak (line : Nat) : Token := plain .lineBreak line

/-- The token that ends a program. -/
def endOfFile (line : Nat) : Token := plain .endOfFile line

/-- The token of a word that was found to be of some kind: it keeps the text if the kind does. -/
def ofWord (kind : Kind) (text : List Char) (line : Nat) : Token :=
  ⟨kind, if kind.carriesText then some (String.ofList text) else none, line⟩

/-- How messages and listings write a token: its tag, and its text after a colon. -/
def display (token : Token) : String :=
  match token.value with
  | some text => token.kind.name ++ ":" ++ text
  | none => token.kind.name

/-- The text that stands for a token in a program. -/
def sourceText (token : Token) : String :=
  match token.value with
  | some text => text
  | none =>
    match token.kind with
    | .lineBreak => "\n"
    | kind => kind.symbol?.getD ""

end Token

end CalcLang
