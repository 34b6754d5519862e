import CalcLang.Proofs.Condition.Relabelling
import CalcLang.Proofs.Program.Compilation
import CalcLang.Proofs.Program.Relining
import CalcLang.Proofs.Scan.LetterCase

/-! # Programs in upper case

    A program may be written in either case.  In upper case, its words are kept in upper case and
    nothing else changes:

    * `upcasing`: the relabelling of spans that upper-cases words.
    * `inUpperCase`: the pairing of a run with the run in upper case.
    * `UpcasedOutcome`: one outcome is the other one in upper case.
    * `compile_asciiUpcase`: this is so for the outcome of a program in upper case and that of the
      program. -/

namespace CalcLang

open Reading Text

variable {options : ReadOptions} {body : List Token} {statements : List Node}

/-! ### Messages -/

/-- An error about words in upper case. -/
inductive UpcasedError : ParseError → ParseError → Prop
  | lexical (error : LexicalError) : UpcasedError (.lexical error) (.lexical error.upcased)
  /-- The offending token is quoted in upper case. -/
  | grammar (fault : Fault) (token : Option String) (line : Option Nat) :
      UpcasedError (.grammar fault token line) (.grammar fault (token.map asciiUpcase) line)
  /-- So is the expression in which something is left over. -/
  | orphan (expression : String) (token : Option String) (line : Option Nat) :
      UpcasedError (.grammar (.orphan expression) token line)
        (.grammar (.orphan (asciiUpcase expression)) (token.map asciiUpcase) line)
  | unsupported (feature : Keyword) (line : Nat) :
      UpcasedError (.unsupported feature line) (.unsupported feature line)

/-- A note about a token in upper case. -/
def UpcasedNote (note note' : Diagnostic) : Prop :=
  ∃ token, note = .ofSkipped token ∧ note' = .ofSkipped token.upcased

/-- A fault about words in upper case. -/
def Fault.upcased : Fault → Fault
  | .orphan expression => .orphan (asciiUpcase expression)
  | fault => fault

/-- The error about words in upper case. -/
def ParseError.upcased : ParseError → ParseError
  | .lexical error => .lexical error.upcased
  | .grammar fault token line => .grammar fault.upcased (token.map asciiUpcase) line
  | .unsupported feature line => .unsupported feature line

theorem Fault.upcased_eq {fault : Fault} (h : ∀ text, fault ≠ .orphan text) :
    fault.upcased = fault := by
  cases fault with
  | orphan text => exact absurd rfl (h text)
  | _ => rfl

theorem upcasedError_upcased (error : ParseError) : UpcasedError error error.upcased := by
  cases error with
  | lexical error => exact .lexical error
  | unsupported feature line => exact .unsupported feature line
  | grammar fault token line =>
    cases fault with
    | orphan expression => exact .orphan expression token line
    | _ => exact .grammar _ token line

/-! ### Words -/

/-- The names of kinds are in upper case. -/
theorem Kind.asciiUpcase_name (kind : Kind) : asciiUpcase kind.name = kind.name := by
  cases kind with
  | dataType word | operator word | keyword word | comparison word | connective word | literal word
  | var word | function word | phrase word => cases word <;> decide
  | _ => decide

/-- So are the spellings of words. -/
theorem Kind.asciiUpcase_symbol {kind : Kind} {symbol : String} (h : kind.symbol? = some symbol) :
    asciiUpcase symbol = symbol := by
  cases kind with
  | dataType word | operator word | keyword word | comparison word | connective word
  | function word => cases word <;> cases h <;> decide
  | assign | openParen | closeParen | comma =>
    cases h
    decide
  | _ => cases h

theorem Token.display_upcased (token : Token) :
    token.upcased.display = asciiUpcase token.display := by
  obtain ⟨kind, value, line⟩ := token
  cases value with
  | none => exact (Kind.asciiUpcase_name kind).symm
  | some text =>
    show kind.name ++ ":" ++ asciiUpcase text = asciiUpcase (kind.name ++ ":" ++ text)
    rw [asciiUpcase_append, asciiUpcase_append, Kind.asciiUpcase_name]
    rfl

theorem Token.sourceText_upcased (token : Token) :
    token.upcased.sourceText = asciiUpcase token.sourceText := by
  obtain ⟨kind, value, line⟩ := token
  cases value with
  | some text => rfl
  | none =>
    have hsymbol : asciiUpcase (kind.symbol?.getD "") = kind.symbol?.getD "" := by
      cases hword : kind.symbol? with
      | none => rfl
      | some symbol => exact Kind.asciiUpcase_symbol hword
    cases kind with
    | lineBreak =>
      show "\n" = asciiUpcase "\n"
      decide
    | _ => exact hsymbol.symm

/-- Tokens in upper case are printed in upper case. -/
theorem printFrom_upcased (fresh : Bool) (tokens : List Token) :
    printFrom fresh (tokens.map Token.upcased) = (printFrom fresh tokens).map asciiUpcaseChar := by
  induction tokens generalizing fresh with
  | nil => rfl
  | cons token rest ih =>
    have hkind : token.upcased.kind = token.kind := rfl
    rw [List.map_cons, printFrom, printFrom, hkind, Token.sourceText_upcased, toList_asciiUpcase]
    split
    · rfl
    · rw [ih]
      rfl
    · rw [ih, List.map_append, List.map_append]
      cases fresh <;> rfl

theorem quoteSpan_upcased (span : List Token) :
    quoteSpan (span.map Token.upcased) = asciiUpcase (quoteSpan span) := by
  unfold quoteSpan
  rw [printFrom_upcased, asciiUpcase_ofList, List.map_map, List.map_map]
  congr 1
  apply List.map_congr_left
  intro c _
  simp only [Function.comp_def, asciiUpcaseChar_eq_break]
  split <;> rfl

/-! ### Spans -/

/-- Words in upper case, as a relabelling. -/
def upcasing : Relabelling where
  token := .upcased
  error := .upcased
  kind_token _ := rfl
  token_phrase _ _ := rfl
  error_nowhere fault h := by
    show ParseError.grammar fault.upcased none none = _
    rw [Fault.upcased_eq h]
    rfl
  error_pinned t fault h := by
    show ParseError.grammar fault.upcased (some (asciiUpcase t.display)) (some t.line) = _
    rw [Fault.upcased_eq h, ← Token.display_upcased]
    rfl
  error_orphan t span := by
    rw [quoteSpan_upcased]
    show ParseError.grammar _ (some (asciiUpcase t.display)) (some t.line) = _
    rw [← Token.display_upcased]
    rfl

/-- A tree with its words in upper case. -/
def Node.upcased : Node → Node := .map Token.upcased

theorem pairedResults_upcased {result result' : Except ParseError Node}
    (h : result' = upcasing.result upcasing.node result) :
    PairedResults (fun a b => b = a.upcased) UpcasedError result result' := by
  rw [h]
  cases result with
  | ok node => exact .ok rfl
  | error error => exact .error (upcasedError_upcased error)

/-! ### Programs -/

/-- A run beside the one in upper case.  The two never part. -/
def inUpperCase : Pairing where
  options := Eq
  token a b := b = a.upcased
  node a b := b = a.upcased
  note := UpcasedNote
  error := UpcasedError
  span _ := True
  parted _ _ := False
  kind_eq h := by rw [h]; rfl
  requireTitle_eq h := congrArg ReadOptions.requireTitle h
  node_branch h hs := by
    rw [h, forall₂_eq_map.1 hs]
    exact (upcasing.node_branch _ _).symm
  node_block h hs := by
    rw [h, forall₂_eq_map.1 hs]
    exact (upcasing.node_phrase .block _ _).symm
  error_pinned fault h := by
    rw [h, ParseError.pinned, ParseError.pinned, Token.display_upcased]
    exact .grammar fault _ _
  error_unsupported feature h := by
    rw [h]
    exact .unsupported feature _
  span_prefix _ _ := trivial
  expression h _ hs := by
    rw [h, forall₂_eq_map.1 hs]
    exact pairedResults_upcased (upcasing.relabels_readExpression _ _)
  condition h _ hs := by
    rw [h, forall₂_eq_map.1 hs]
    exact pairedResults_upcased (upcasing.relabels_readCondition _ _)
  unknown h htoken := .inl ⟨by rw [h], _, rfl, by rw [htoken]⟩
  parted_append _ h := h

theorem sessions_upcased (options : ReadOptions) (body : List Token) (last : Nat) :
    inUpperCase.Sessions ⟨options, [], body, last, [], []⟩
      ⟨options, [], body.map Token.upcased, last, [], []⟩ :=
  ⟨rfl, .nil, forall₂_eq_map.2 rfl, rfl, .nil, fun _ _ _ => trivial⟩

/-! ### Titles -/

theorem dropWhile_quote_upcased (text : List Char) :
    (text.map asciiUpcaseChar).dropWhile (· == '"') =
      (text.dropWhile (· == '"')).map asciiUpcaseChar := by
  have hquote : ((· == '"') ∘ asciiUpcaseChar) = (· == '"') := by
    funext c
    rw [Function.comp_apply, Bool.eq_iff_iff, beq_iff_eq, beq_iff_eq]
    exact asciiUpcaseChar_eq_iff (by decide)
  rw [List.dropWhile_map, hquote]

theorem trimQuotes_asciiUpcase (text : String) :
    trimQuotes (asciiUpcase text) = asciiUpcase (trimQuotes text) := by
  unfold trimQuotes
  rw [toList_asciiUpcase, dropWhile_quote_upcased, ← List.map_reverse, dropWhile_quote_upcased,
    ← List.map_reverse, asciiUpcase_ofList]

theorem title?_upcased (statements : List Node) :
    title? (statements.map Node.upcased) = (title? statements).map asciiUpcase := by
  cases statements with
  | nil => rfl
  | cons first rest =>
    obtain ⟨token, name, children⟩ := first
    show (if token.kind = .keyword .program then _ else none) =
      Option.map asciiUpcase (if token.kind = .keyword .program then _ else none)
    split
    · cases children with
      | nil => rfl
      | cons child others =>
        obtain ⟨inner, name', children'⟩ := child
        show (inner.value.map asciiUpcase).map trimQuotes =
          (inner.value.map trimQuotes).map asciiUpcase
        cases inner.value with
        | none => rfl
        | some text => exact congrArg some (trimQuotes_asciiUpcase text)
    · rfl

/-- The tree of a program in upper case.  Its root has a title and no word. -/
def Node.upcasedRoot (root : Node) : Node where
  token := root.token
  name := root.name.map asciiUpcase
  children := root.children.map Node.upcased

theorem programTree_upcased (statements : List Node) :
    programTree (statements.map Node.upcased) = (programTree statements).upcasedRoot := by
  unfold programTree
  rw [title?_upcased]
  rfl

/-! ### Main result -/

/-- What comes of a program, and what comes of the program in upper case. -/
inductive UpcasedOutcome :
    Except ParseError Compilation → Except ParseError Compilation → Prop
  | ok (root : Node) {notes notes' : List Diagnostic}
      (hnotes : List.Forall₂ UpcasedNote notes notes') :
      UpcasedOutcome (.ok ⟨root, notes⟩) (.ok ⟨root.upcasedRoot, notes'⟩)
  | error {error error' : ParseError} (herror : UpcasedError error error') :
      UpcasedOutcome (.error error) (.error error')

/-- What is compiled from tokens in upper case is what is compiled from them, in upper case. -/
theorem compile_upcased (options : ReadOptions) (body : List Token) (last : Nat) :
    UpcasedOutcome (Session.compile ⟨options, [], body, last, [], []⟩).result
      (Session.compile ⟨options, [], body.map Token.upcased, last, [], []⟩).result := by
  have hruns := inUpperCase.paired_compile (fun _ _ h => h) (sessions_upcased options body last)
  generalize (Session.compile ⟨options, [], body, last, [], []⟩).result = one,
    (Session.compile ⟨options, [], body.map Token.upcased, last, [], []⟩).result = two at hruns ⊢
  cases hruns with
  | error herror => exact .error herror
  | ok h =>
    obtain ⟨hstatements, hnotes⟩ := h
    obtain rfl := forall₂_eq_map.1 hstatements
    rw [programTree_upcased]
    exact .ok _ hnotes

/-- A program may be written in either case.  In upper case, it has the same tokens with their words
    in upper case, or the same word of it is none of the language; and it is compiled to the same
    tree and the same notes with their words in upper case, or it has the same error on the same
    line. -/
theorem compile_asciiUpcase (options : ReadOptions) (source : String) :
    tokenize (asciiUpcase source) = upcasedTokens (tokenize source) ∧
      UpcasedOutcome (compile options source) (compile options (asciiUpcase source)) := by
  refine ⟨tokenize_upcased source, ?_⟩
  rw [compile_eq, compile_eq, tokenize_upcased]
  cases htokens : tokenize source with
  | error error => exact .error (.lexical error)
  | ok tokens =>
    obtain ⟨scanned, -, rfl⟩ := tokenize_eq_ok_iff.1 htokens
    have hend : (trimLineBreaks scanned ++ [Token.endOfFile (lastLine source.toList)]).map
        Token.upcased = (trimLineBreaks scanned).map Token.upcased ++
          [Token.endOfFile (lastLine source.toList)] :=
      List.map_append
    simp only [upcasedTokens, mapTokens, hend, ofTokens_append_endOfFile]
    exact compile_upcased options _ _

end CalcLang
