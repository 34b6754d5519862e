import CalcLang.Proofs.Condition.Regrouping
import CalcLang.Proofs.Program.Compilation
import CalcLang.Proofs.Program.Pairing
import CalcLang.Proofs.Scan.Placement

/-! # Programs under two precedences

    Which operators are folded first decides about the grouping in expressions and about nothing else
    in a program:

    * `regrouping`: the pairing of two runs under two precedences.
    * `RegroupedOutcome`: two outcomes that are the same but for the grouping.
    * `compile_precedence`: this is so for the outcomes of a program under two precedences. -/

namespace CalcLang

open Node Reading

variable {options : ReadOptions} {one two : Precedence} {line : Nat} {tokens body : List Token}
  {statements statements' : List Node}

/-! ### Lines -/

/-- The words up to the end of a line stand on it. -/
theorem StandOn.areOnLine (h : StandOn line tokens)
    (hinside : ∀ t ∈ tokens, t.kind.isInside = true) :
    AreOnLine line (tokens.takeWhile (!·.kind.endsLine)) := by
  have hword : ∀ t ∈ tokens.takeWhile (!·.kind.endsLine), t.kind.isWord = true := by
    intro t ht
    have hscanned := Kind.isScanned_of_isInside (hinside t ((List.takeWhile_prefix _).subset ht))
    have hends := List.mem_takeWhile_imp ht
    rw [Kind.isWord, hscanned]
    exact hends
  have hnone : breakCount (tokens.takeWhile (!·.kind.endsLine)) = 0 :=
    breakCount_eq_zero fun t ht => isLineBreak_of_isWord (hword t ht)
  rw [← List.takeWhile_append_dropWhile (p := (!·.kind.endsLine)) (l := tokens)] at h
  have hbounds := (standOn_append.1 h).1.line_mem
  rw [hnone] at hbounds
  intro t ht
  have hline := hbounds t ht
  exact ⟨by omega, hword t ht⟩

/-! ### Programs -/

/-- A run beside the one under another precedence.  The two never part. -/
def regrouping : Pairing where
  options o p := ∃ precedence, p = { o with precedence := precedence }
  token := Eq
  node := Regrouped
  note := Eq
  error := ParseError.SamePlace
  span xs := ∃ line, AreOnLine line xs
  parted _ _ := False
  kind_eq h := congrArg Token.kind h
  requireTitle_eq h := by
    obtain ⟨precedence, rfl⟩ := h
    rfl
  node_branch h hs := by
    rw [h]
    exact regrouped_branch _ hs
  node_block h hs := by
    rw [h]
    exact regrouped_branch _ hs
  error_pinned fault h := by
    rw [h]
    exact ParseError.samePlace_refl _
  error_unsupported feature h := by
    rw [h]
    exact ParseError.samePlace_refl _
  span_prefix hprefix h := by
    obtain ⟨line, hline⟩ := h
    exact ⟨line, hline.mono hprefix.subset⟩
  expression {o _ _ _} h hspan hs := by
    obtain ⟨precedence, rfl⟩ := h
    obtain ⟨line, hline⟩ := hspan
    rw [← eq_of_forall₂ hs]
    exact regroups_readExpression o o.precedence precedence line _ hline
  condition {o _ _ _} h hspan hs := by
    obtain ⟨precedence, rfl⟩ := h
    obtain ⟨line, hline⟩ := hspan
    rw [← eq_of_forall₂ hs]
    exact regroups_readCondition o o.precedence precedence line _ hline
  unknown h htoken := by
    obtain ⟨precedence, rfl⟩ := h
    exact .inl ⟨rfl, by rw [htoken]⟩
  parted_append _ h := h

theorem sessions_regrouping (options : ReadOptions) (one two : Precedence) (last : Nat)
    (hstand : StandOn line body) (hinside : ∀ t ∈ body, t.kind.isInside = true) :
    regrouping.Sessions ⟨{ options with precedence := one }, [], body, last, [], []⟩
      ⟨{ options with precedence := two }, [], body, last, [], []⟩ where
  options := ⟨two, rfl⟩
  passed := .nil
  ahead := List.forall₂_same.2 fun _ _ => rfl
  terminator := rfl
  diagnostics := .nil
  lines before after hahead := by
    -- However much has been read, what is left stands on lines from there on.
    obtain rfl : body = before ++ after := hahead
    refine ⟨line + breakCount before, (standOn_append.1 hstand).2.areOnLine ?_⟩
    intro t ht
    exact hinside t (List.mem_append_right _ ht)

/-! ### Trees -/

/-- Titles are no matter of grouping. -/
theorem title?_regrouped (h : List.Forall₂ Regrouped statements statements') :
    title? statements = title? statements' := by
  cases h with
  | nil => rfl
  | @cons first first' rest rest' hfirst _ =>
    have hkind : first.kind = first'.kind := congrArg Token.kind hfirst.token_eq
    rw [title?, title?, hkind]
    split
    · next hprogram =>
      have hchildren : first.children.map flat = first'.children.map flat := by
        have hflat := congrArg Node.children hfirst.flat
        unfold flat at hflat
        rw [hkind, hprogram] at hflat
        rw [← rows_false, ← rows_false]
        exact hflat
      have hvalue (nodes : List Node) :
          nodes.head?.bind Node.value = (nodes.map flat).head?.bind Node.value := by
        cases nodes <;> rfl
      rw [hvalue, hchildren, ← hvalue]
    · rfl

theorem regrouped_programTree (h : List.Forall₂ Regrouped statements statements') :
    (programTree statements).flat = (programTree statements').flat ∧
      ((programTree statements).flat.isUnmixed = true →
        programTree statements = programTree statements') := by
  obtain ⟨hrows, hsame⟩ := rows_regrouped false h
  have hflat (statements : List Node) : (programTree statements).flat =
      ⟨.plain (.phrase .prog) 0, title? statements, rows false statements⟩ := rfl
  rw [hflat, hflat, title?_regrouped h, hrows]
  refine ⟨rfl, fun hunmixed => ?_⟩
  rw [isUnmixed, Bool.and_eq_true, ← hrows] at hunmixed
  rw [hsame hunmixed.2]

/-! ### Main result -/

/-- Two outcomes of a compilation that are the same but for the grouping in expressions: trees that
    are equal when they are flat, and equal altogether if no row of an expression mixes operators of
    both tiers, with the same notes; or errors of the same variant and on the same line. -/
inductive RegroupedOutcome :
    Except ParseError Compilation → Except ParseError Compilation → Prop
  | ok {root root' : Node} (notes : List Diagnostic) (hflat : root.flat = root'.flat)
      (hsame : root.flat.isUnmixed = true → root = root') :
      RegroupedOutcome (.ok ⟨root, notes⟩) (.ok ⟨root', notes⟩)
  | error {error error' : ParseError} (herror : error.SamePlace error') :
      RegroupedOutcome (.error error) (.error error')

/-- What is compiled from tokens under two precedences is the same but for the grouping. -/
theorem compile_regrouped (options : ReadOptions) (one two : Precedence) (last : Nat)
    (hstand : StandOn line body) (hinside : ∀ t ∈ body, t.kind.isInside = true) :
    RegroupedOutcome
      (Session.compile ⟨{ options with precedence := one }, [], body, last, [], []⟩).result
      (Session.compile ⟨{ options with precedence := two }, [], body, last, [], []⟩).result := by
  have hruns := regrouping.paired_compile (fun _ _ h => h)
    (sessions_regrouping options one two last hstand hinside)
  generalize
    (Session.compile ⟨{ options with precedence := one }, [], body, last, [], []⟩).result = first,
    (Session.compile ⟨{ options with precedence := two }, [], body, last, [], []⟩).result = second
    at hruns ⊢
  cases hruns with
  | error herror => exact .error herror
  | ok h =>
    obtain ⟨hstatements, hnotes⟩ := h
    obtain ⟨hflat, hsame⟩ := regrouped_programTree hstatements
    obtain rfl := eq_of_forall₂ hnotes
    exact .ok _ hflat hsame

/-- The precedence only regroups.  Under either one, a program is compiled to the same notes and to
    the same tree but for the grouping in its expressions, or it has an error of the same variant on
    the same line. -/
theorem compile_precedence (options : ReadOptions) (one two : Precedence) (source : String) :
    RegroupedOutcome (compile { options with precedence := one } source)
      (compile { options with precedence := two } source) := by
  rw [compile_eq, compile_eq]
  cases htokens : tokenize source with
  | error error => exact .error (ParseError.samePlace_refl _)
  | ok tokens =>
    obtain ⟨body, first, rfl, -, hinside, hstand, -⟩ := exists_body_of_tokenize htokens
    simp only [ofTokens_append_endOfFile]
    exact compile_regrouped options one two _ hstand hinside

end CalcLang
