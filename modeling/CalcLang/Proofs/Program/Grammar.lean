import CalcLang.Proofs.Condition.Language
import CalcLang.Program.Compilation

/-! # The grammar of programs

    The language of programs, each with its tree, on top of the expressions and the conditions that
    are read.  Whether some tokens are a statement depends on what stands around them, so the
    relations take the tokens before and after:

    * `IsSimple`: `PROGRAM`, `VERSION`, declarations, assignments, jumps and output.
    * `IsStatement`: simple statements and the two forms of conditionals.
    * `IsBlock`: a run of statements up to the end of the block.

    All of them know the tokens that are skipped because they start no statement.  There are none
    unless the options are lenient. -/

namespace CalcLang

/-! ### Places -/

/-- What follows some tokens opens a physical line. -/
def OpensLine (before : List Token) : Prop :=
  ∀ t ∈ before.getLast?, t.kind = .lineBreak

/-- What precedes some tokens ends its physical line. -/
def EndsLine (after : List Token) : Prop :=
  ∀ t ∈ after.head?, t.kind.endsLine = true

/-- Tokens that are all on one physical line. -/
def OnLine (span : List Token) : Prop :=
  ∀ t ∈ span, t.kind.endsLine = false

/-- A block may end before some tokens: a program at the end of the text, the body of a conditional
    also before `END` or `ELSE`, and a body in line form also before a line break. -/
def BlockEnd.EndsBefore (stop : BlockEnd) : List Token → Prop
  | [] => True
  | next :: _ =>
    (stop ≠ .program ∧ (next.kind = .keyword .endWord ∨ next.kind = .keyword .elseWord)) ∨
      (stop = .line ∧ next.kind = .lineBreak)

/-! ### Simple statements -/

/-- The words that follow the first word of a statement, if their number is fixed. -/
def Kind.operands? : Kind → Option (List (Kind → Bool))
  | .keyword .program => some [(· == .literal .string)]
  | .keyword .version => some [(· == .literal .int), (· == .literal .int), (· == .literal .int)]
  | .dataType _ => some [Kind.isVariable]
  | .keyword .implicit => some [Kind.isDataType, Kind.isVariable]
  | .keyword .label | .keyword .goto => some [Kind.isVariable]
  | .keyword .disp => some [fun kind => kind.isVariable || kind.isLiteral]
  | .keyword .dispStr => some [fun kind => kind == .literal .string || kind.isVariable]
  | _ => none

/-- Where the first word of a statement may stand: a title only at the very start, declarations and
    jumps at the start of a physical line. -/
def Kind.MayFollow (before : List Token) : Kind → Prop
  | .keyword .program => before = []
  | .dataType _ | .keyword .label | .keyword .goto => OpensLine before
  | _ => True

/-- Some words are of the kinds that are asked for. -/
def Fits : List (Kind → Bool) → List Token → Prop
  | [], [] => True
  | allowed :: shape, token :: tokens => allowed token.kind = true ∧ Fits shape tokens
  | _, _ => False

/-- The parts of a line that stores: something, the only arrow of the line, and a variable. -/
structure IsStoreLine (line span : List Token) (arrow target : Token) : Prop where
  parts : line = span ++ [arrow, target]
  nonempty : span ≠ []
  others : ∀ t ∈ span, t.kind ≠ .assign
  arrow : arrow.kind = .assign
  target : target.kind.isVariable = true

/-- A statement without statements inside, with its tree. -/
inductive IsSimple (options : ReadOptions) (before : List Token) :
    List Token → List Token → Node → Prop
  /-- A word and a fixed number of operands. -/
  | fixed {keyword : Token} {operands after : List Token} {shape : List (Kind → Bool)}
      (hshape : keyword.kind.operands? = some shape) (hplace : keyword.kind.MayFollow before)
      (hfits : Fits shape operands) :
      IsSimple options before (keyword :: operands) after
        (.branch keyword (operands.map .leaf))
  /-- `variable -> expression`, where the expression is the rest of the line. -/
  | assignment {target arrow : Token} {span after : List Token} {expression : Node}
      (htarget : target.kind.isVariable = true) (harrow : arrow.kind = .assign)
      (hspan : span ≠ []) (hline : OnLine span) (hends : EndsLine after)
      (hread : (readExpression options span).result = .ok expression) :
      IsSimple options before (target :: arrow :: span) after
        (.branch arrow [.leaf target, expression])
  /-- `expression -> variable`, which fills a line and is not `variable -> variable`. -/
  | store {arrow target : Token} {line span after : List Token} {expression : Node}
      (hopens : OpensLine before) (hparts : IsStoreLine line span arrow target)
      (hlone : ∀ t, span = [t] → t.kind.isVariable = false)
      (hline : OnLine line) (hends : EndsLine after)
      (hread : (readExpression options span).result = .ok expression) :
      IsSimple options before line after (.branch arrow [.leaf target, expression])

/-! ### Statements and blocks -/

/-- The condition of a conditional: what stands between `IF` and the first `THEN` of the line, or the
    end of the line. -/
structure IsGuard (options : ReadOptions) (span : List Token) (condition : Node) : Prop where
  nonempty : span ≠ []
  line : OnLine span
  others : ∀ t ∈ span, t.kind ≠ .keyword .thenWord
  read : (readCondition options span).result = .ok condition

/-- The kinds that open no statement of their own.  A token of such a kind may still be the first one
    of an assignment. -/
structure Kind.OpensNothing (kind : Kind) : Prop where
  inside : kind.endsLine = false
  operands : kind.operands? = none
  conditional : kind ≠ .keyword .ifWord
  call : kind ≠ .keyword .call

/-- A token that starts no statement. -/
structure IsStray (before : List Token) (token : Token) (after : List Token) : Prop where
  kind : token.kind.OpensNothing
  noAssignment : token.kind.isVariable = true → ∀ t ∈ after.head?, t.kind ≠ .assign
  noStore : OpensLine before → ∀ span arrow target,
    ¬ IsStoreLine ((token :: after).takeWhile (!·.kind.endsLine)) span arrow target

mutual

/-- A statement, with the tokens before and after it, those it skips, and its tree. -/
inductive IsStatement (options : ReadOptions) :
    List Token → List Token → List Token → List Token → Node → Prop
  | simple {before tokens after : List Token} {tree : Node}
      (h : IsSimple options before tokens after tree) :
      IsStatement options before tokens after [] tree
  /-- `IF condition THEN block END`. -/
  | ifThen {keyword thenWord endWord : Token} {before guard body after skipped : List Token}
      {condition : Node} {statements : List Node}
      (hkeyword : keyword.kind = .keyword .ifWord) (hguard : IsGuard options guard condition)
      (hthen : thenWord.kind = .keyword .thenWord)
      (hbody : IsBlock options .keyword (before ++ keyword :: (guard ++ [thenWord])) body
        (endWord :: after) skipped statements)
      (hfull : statements ≠ []) (hend : endWord.kind = .keyword .endWord) :
      IsStatement options before (keyword :: (guard ++ thenWord :: (body ++ [endWord]))) after
        skipped (.branch keyword [condition, .phrase .block keyword.line statements])
  /-- `IF condition THEN block ELSE block END`. -/
  | ifThenElse {keyword thenWord elseWord endWord : Token}
      {before guard body alternative after skipped skipped' : List Token}
      {condition : Node} {statements statements' : List Node}
      (hkeyword : keyword.kind = .keyword .ifWord) (hguard : IsGuard options guard condition)
      (hthen : thenWord.kind = .keyword .thenWord)
      (hbody : IsBlock options .keyword (before ++ keyword :: (guard ++ [thenWord])) body
        (elseWord :: (alternative ++ endWord :: after)) skipped statements)
      (hfull : statements ≠ []) (helse : elseWord.kind = .keyword .elseWord)
      (halternative : IsBlock options .keyword
        (before ++ keyword :: (guard ++ thenWord :: (body ++ [elseWord]))) alternative
        (endWord :: after) skipped' statements')
      (hfull' : statements' ≠ []) (hend : endWord.kind = .keyword .endWord) :
      IsStatement options before
        (keyword :: (guard ++ thenWord :: (body ++ elseWord :: (alternative ++ [endWord])))) after
        (skipped ++ skipped')
        (.branch keyword [condition, .phrase .block keyword.line statements,
          .phrase .block elseWord.line statements'])
  /-- `IF condition` and a body behind one or more line breaks. -/
  | ifLine {keyword : Token} {before guard breaks body after skipped : List Token}
      {condition : Node} {statements : List Node}
      (hkeyword : keyword.kind = .keyword .ifWord) (hguard : IsGuard options guard condition)
      (hbreaks : breaks ≠ []) (hbreak : ∀ t ∈ breaks, t.kind = .lineBreak)
      (hbody : IsBlock options .line (before ++ keyword :: (guard ++ breaks)) body after skipped
        statements)
      (hfull : statements ≠ []) :
      IsStatement options before (keyword :: (guard ++ (breaks ++ body))) after skipped
        (.branch keyword [condition, .phrase .block keyword.line statements])

/-- A block that ends as given, with the tokens before and after it, those it skips, and the trees of
    its statements. -/
inductive IsBlock (options : ReadOptions) :
    BlockEnd → List Token → List Token → List Token → List Token → List Node → Prop
  | finish {stop : BlockEnd} {before after : List Token} (hends : stop.EndsBefore after) :
      IsBlock options stop before [] after [] []
  | newLine {stop : BlockEnd} {token : Token} {before rest after skipped : List Token}
      {statements : List Node}
      (hstop : stop ≠ .line) (htoken : token.kind = .lineBreak)
      (hrest : IsBlock options stop (before ++ [token]) rest after skipped statements) :
      IsBlock options stop before (token :: rest) after skipped statements
  | statement {stop : BlockEnd} {before tokens rest after skipped skipped' : List Token}
      {tree : Node} {statements : List Node}
      (htokens : IsStatement options before tokens (rest ++ after) skipped tree)
      (hrest : IsBlock options stop (before ++ tokens) rest after skipped' statements) :
      IsBlock options stop before (tokens ++ rest) after (skipped ++ skipped') (tree :: statements)
  | skip {stop : BlockEnd} {token : Token} {before rest after skipped : List Token}
      {statements : List Node}
      (hpolicy : options.unknownStatements = .skip)
      (hopen : ¬ stop.EndsBefore (token :: (rest ++ after)))
      (hstray : IsStray before token (rest ++ after))
      (hrest : IsBlock options stop (before ++ [token]) rest after skipped statements) :
      IsBlock options stop before (token :: rest) after (token :: skipped) statements

end

end CalcLang
