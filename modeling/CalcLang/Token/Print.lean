import CalcLang.Token.Basic

/-!
# From tokens to text

`printTokens` writes tokens back as program text: one blank between the tokens of a line, and nothing
from the end of the program on.
-/

namespace CalcLang

/-- The text of a list of tokens, where `fresh` tells whether the text so far ends at a line
    start. -/
def printFrom (fresh : Bool) : List Token → List Char
  | [] => []
  | token :: rest =>
    match token.kind with
    | .endOfFile => []
    | .lineBreak => '\n' :: printFrom true rest
    | _ =>
      (if fresh then [] else [' ']) ++ token.sourceText.toList ++ printFrom false rest

/-- The program text of a list of tokens. -/
def printTokens (tokens : List Token) : String :=
  String.ofList (printFrom true tokens)

end CalcLang
