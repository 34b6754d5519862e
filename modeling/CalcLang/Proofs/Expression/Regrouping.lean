import CalcLang.Proofs.Expression.Flattening
import CalcLang.Proofs.Expression.Locating
import CalcLang.Proofs.Expression.Relabelling
import CalcLang.Proofs.Scan.Lines
import Mathlib.Data.List.Forall2

/-! # Expressions under two precedences

    Which operators are folded first decides about the grouping of operands and about nothing else:

    * `Regrouped`: two trees that are the same but for the grouping.
    * `Expression.regrouped`: the trees of an expression under two precedences are.
    * `Expression.tree_eq_of_isUnmixed`: they are the same tree if no level of parentheses has
      operators of both tiers.
    * `regroups_readExpression`: a line is read as an expression under both precedences, or it is an
      error on that line under both. -/

namespace CalcLang

/-! ### Regrouped trees -/

open Node

/-- Two trees that are the same but for the grouping of operators, and the same altogether if no row
    mixes operators of both tiers. -/
structure Regrouped (a b : Node) : Prop where
  row (inside : Bool) : a.row inside = b.row inside
  same (inside : Bool) : areUnmixed (a.row inside) = true → a = b

variable {a b first first' : Node} {as bs : List Node} {links links' : List (Token × Node)}
  {line : Nat}

namespace Regrouped

theorem refl (a : Node) : Regrouped a a :=
  ⟨fun _ => rfl, fun _ _ => rfl⟩

theorem flat (h : Regrouped a b) : a.flat = b.flat := by
  have hrow := h.row false
  rw [row_eq_flat (.inl rfl), row_eq_flat (.inl rfl)] at hrow
  exact (List.cons.inj hrow).1

theorem eq_of_isUnmixed (h : Regrouped a b) (hunmixed : a.flat.isUnmixed = true) : a = b := by
  apply h.same false
  rw [row_eq_flat (.inl rfl), areUnmixed_singleton]
  exact hunmixed

theorem token_eq (h : Regrouped a b) : a.token = b.token := by
  show a.flat.token = b.flat.token
  rw [h.flat]

end Regrouped

theorem rows_regrouped (inside : Bool) (h : List.Forall₂ Regrouped as bs) :
    rows inside as = rows inside bs ∧ (areUnmixed (rows inside as) = true → as = bs) := by
  induction h with
  | nil => exact ⟨rfl, fun _ => rfl⟩
  | cons hfirst hrest ih =>
    obtain ⟨hrows, hsame⟩ := ih
    refine ⟨by rw [rows, rows, hfirst.row, hrows], fun hunmixed => ?_⟩
    rw [rows, areUnmixed_append, Bool.and_eq_true] at hunmixed
    rw [hfirst.same inside hunmixed.1, hsame hunmixed.2]

/-- Nodes over regrouped subtrees are regrouped. -/
theorem regrouped_branch (token : Token) (h : List.Forall₂ Regrouped as bs) :
    Regrouped (.branch token as) (.branch token bs) := by
  have hall (inside : Bool) :
      (Node.branch token as).row inside = (Node.branch token bs).row inside ∧
        (areUnmixed ((Node.branch token as).row inside) = true → as = bs) := by
    by_cases hsolid : inside = false ∨ token.kind.isOperator = false ∨ as.length ≠ 2
    · obtain ⟨hrows, hsame⟩ := rows_regrouped (token.kind == .phrase .expr) h
      rw [row_branch hsolid, row_branch (h.length_eq ▸ hsolid), hrows]
      refine ⟨rfl, fun hunmixed => ?_⟩
      rw [areUnmixed_singleton, isUnmixed, Bool.and_eq_true, ← hrows] at hunmixed
      exact hsame hunmixed.2
    · -- An operator between two operands leaves the row to them.
      simp only [not_or, ne_eq, not_not, Bool.not_eq_false] at hsolid
      obtain ⟨rfl, hoperator, htwo⟩ := hsolid
      obtain ⟨left, right, rfl⟩ := List.length_eq_two.1 htwo
      obtain ⟨left', _, hleft, hrest, rfl⟩ := List.forall₂_cons_left_iff.1 h
      obtain ⟨right', _, hright, hnil, rfl⟩ := List.forall₂_cons_left_iff.1 hrest
      obtain rfl := List.forall₂_nil_left_iff.1 hnil
      unfold Node.branch
      rw [row_operator hoperator, row_operator hoperator, hleft.row, hright.row]
      refine ⟨rfl, fun hunmixed => ?_⟩
      rw [← hleft.row, ← hright.row, areUnmixed_append, areUnmixed, Bool.and_eq_true,
        Bool.and_eq_true] at hunmixed
      rw [hleft.same true hunmixed.1, hright.same true hunmixed.2.2]
  constructor
  · intro inside
    exact (hall inside).1
  · intro inside hunmixed
    rw [(hall inside).2 hunmixed]

/-- An expression is regrouped if the rows in it are the same. -/
theorem regrouped_phrase (line : Nat) (hrow : a.row true = b.row true)
    (hsame : areUnmixed (a.row true) = true →
      mixesTiers ((a.row true).map Node.token) = false → a = b) :
    Regrouped (.phrase .expr line [a]) (.phrase .expr line [b]) := by
  constructor
  · intro inside
    rw [row_phrase, row_phrase, hrow]
  · intro inside hunmixed
    rw [row_phrase, areUnmixed_singleton, isUnmixed_expr, Bool.and_eq_true,
      Bool.not_eq_true'] at hunmixed
    rw [hsame hunmixed.2 hunmixed.1]

theorem Regrouped.wrapExpression (h : Regrouped a b) :
    Regrouped (wrapExpression line a) (wrapExpression line b) := by
  have hkind : a.kind = b.kind := congrArg Token.kind h.token_eq
  unfold CalcLang.wrapExpression
  rw [hkind]
  split
  · exact h
  · exact regrouped_phrase line (h.row true) fun hunmixed _ => h.same true hunmixed

/-! ### Rows -/

/-- Operators with regrouped operands to their right. -/
def RegroupedLinks : List (Token × Node) → List (Token × Node) → Prop :=
  List.Forall₂ fun link link' => link.1 = link'.1 ∧ Regrouped link.2 link'.2

theorem Run.row_regrouped (hfirst : Regrouped first first') (hlinks : RegroupedLinks links links') :
    row ⟨first, links⟩ = row ⟨first', links'⟩ ∧
      (areUnmixed (row ⟨first, links⟩) = true → first = first' ∧ links = links') := by
  induction hlinks generalizing first first' with
  | nil =>
    simp only [row, List.flatMap_nil, List.append_nil]
    exact ⟨hfirst.row true, fun hunmixed => ⟨hfirst.same true hunmixed, trivial⟩⟩
  | @cons link link' links links' hlink _ ih =>
    obtain ⟨operator, right⟩ := link
    obtain ⟨_, right'⟩ := link'
    obtain ⟨rfl, hright⟩ := hlink
    obtain ⟨hrow, hsame⟩ := ih hright
    have hcons (first right : Node) (links : List (Token × Node)) :
        row ⟨first, (operator, right) :: links⟩ =
          first.row true ++ ⟨operator, none, []⟩ :: row ⟨right, links⟩ := by
      simp only [row, List.flatMap_cons, List.cons_append]
    rw [hcons, hcons, hfirst.row, hrow]
    refine ⟨rfl, fun hunmixed => ?_⟩
    rw [areUnmixed_append, areUnmixed, Bool.and_eq_true, Bool.and_eq_true, ← hfirst.row,
      ← hrow] at hunmixed
    obtain ⟨rfl, rfl⟩ := hsame hunmixed.2.2
    exact ⟨hfirst.same true hunmixed.1, rfl⟩

/-- The trees of a row under two precedences are regrouped, and so are those of regrouped rows. -/
theorem regrouped_tree {one two : Precedence} (line : Nat) (h : Run.WellFormed ⟨first, links⟩)
    (h' : Run.WellFormed ⟨first', links'⟩) (hfirst : Regrouped first first')
    (hlinks : RegroupedLinks links links') :
    Regrouped (wrapExpression line (one.tree first links))
      (wrapExpression line (two.tree first' links')) := by
  obtain ⟨hrow, hsame⟩ := Run.row_regrouped hfirst hlinks
  cases hlinks with
  | nil => exact hfirst.wrapExpression
  | @cons link link' links links' hlink hlinks =>
    rw [wrapExpression_tree h, wrapExpression_tree h']
    apply regrouped_phrase
    · rw [one.row_tree h, two.row_tree h', hrow]
    · intro hunmixed hmix
      rw [one.row_tree h] at hunmixed hmix
      -- The operators are among the tokens of the row.
      have hlevel : mixesTiers ((link :: links).map Prod.fst) = false := by
        refine mixesTiers_mono ?_ hmix
        intro t ht
        obtain ⟨link, hlink, rfl⟩ := List.mem_map.1 ht
        refine List.mem_map.2 ⟨⟨link.1, none, []⟩, ?_, rfl⟩
        exact List.mem_append_right _ (List.mem_flatMap.2 ⟨link, hlink, List.mem_cons_self⟩)
      obtain ⟨rfl, heq⟩ := hsame hunmixed
      rw [← heq] at h' ⊢
      rw [one.tree_eq_fold h hlevel, two.tree_eq_fold h hlevel]

/-! ### Derivations -/

mutual

theorem Operand.regrouped (one two : Precedence) : (operand : Operand) →
    Regrouped (operand.tree one) (operand.tree two)
  | .numeral _ _ => .refl _
  | .group _ inner _ _ _ => inner.regrouped one two

theorem Links.regrouped (one two : Precedence) : (links : Links) →
    RegroupedLinks (links.trees one) (links.trees two)
  | .nil => .nil
  | .cons _ right rest _ => .cons ⟨rfl, right.regrouped one two⟩ (rest.regrouped one two)

/-- The trees of an expression under two precedences are the same but for the grouping. -/
theorem Expression.regrouped (one two : Precedence) : (expression : Expression) →
    Regrouped (expression.tree one) (expression.tree two)
  | .chain (.numeral token _) .nil => .refl _
  | .chain (.numeral token hnumeral) (.cons operator right rest hoperator) => by
    have hfirst := Operand.regrouped one two (.numeral token hnumeral)
    have hlinks := Links.regrouped one two (.cons operator right rest hoperator)
    exact regrouped_tree _ (Operand.wellFormed_run one _ _) (Operand.wellFormed_run two _ _) hfirst
      hlinks
  | .chain (.group opening inner closing hopen hclose) links => by
    have hfirst := Operand.regrouped one two (.group opening inner closing hopen hclose)
    have hlinks := links.regrouped one two
    exact regrouped_tree _ (Operand.wellFormed_run one _ _) (Operand.wellFormed_run two _ _) hfirst
      hlinks
  | .call function argument _ => by
    have hargument := argument.regrouped one two
    exact (regrouped_branch function (.cons hargument .nil)).wrapExpression

end

/-- Without a level of both tiers, an expression has the same tree under every precedence. -/
theorem Expression.tree_eq_of_isUnmixed (one two : Precedence) {expression : Expression}
    (h : expression.isUnmixed = true) : expression.tree one = expression.tree two := by
  apply (expression.regrouped one two).eq_of_isUnmixed
  rw [expression.isUnmixed_tree]
  exact h

/-! ### Errors -/

/-- Two errors of the same variant and on the same line. -/
structure ParseError.SamePlace (e f : ParseError) : Prop where
  variant : e.ctorIdx = f.ctorIdx
  line : e.line? = f.line?

theorem ParseError.samePlace_refl (e : ParseError) : SamePlace e e :=
  ⟨rfl, rfl⟩

/-- Tokens put on a given line, as a relabelling.  Spans fail with breaches of the grammar only, so
    what becomes of other errors does not matter. -/
def ontoLine (line : Nat) : Relabelling where
  token := .relined fun _ => line
  error
    | .grammar fault token here => .grammar fault token (here.map fun _ => line)
    | _ => .nowhere .expectedExpression
  kind_token _ := rfl
  token_phrase _ _ := rfl
  error_nowhere _ _ := rfl
  error_pinned _ _ _ := rfl
  error_orphan t span := by
    rw [quoteSpan_relined]
    rfl

variable {options : ReadOptions} {span : List Token} {error : ParseError}

/-- An expression on one line fails with a breach of the grammar on that line. -/
theorem exists_fault_of_readExpression (hline : ∀ t ∈ span, t.line = line) (hsome : span ≠ [])
    (h : (readExpression options span).result = .error error) :
    ∃ fault token, error = .grammar fault token (some line) := by
  have hspan : span.map (ontoLine line).token = span := by
    apply (List.map_congr_left fun t ht => ?_).trans (List.map_id span)
    obtain rfl := hline t ht
    rfl
  -- To put the tokens on the line where they are changes nothing, so nor does it change the error.
  have hsame := (ontoLine line).relabels_readExpression options span
  unfold Relabelling.Relabels at hsame
  rw [hspan, h] at hsame
  have hfixed : error = (ontoLine line).error error := Except.error.inj hsame
  obtain ⟨here, hhere⟩ := located_readExpression options span hsome error h
  cases error with
  | lexical e => cases hfixed
  | unsupported feature here => cases hfixed
  | grammar fault token where? =>
    obtain rfl : where? = some here := hhere
    obtain rfl : here = line := Option.some.inj (ParseError.grammar.inj hfixed).2.2
    exact ⟨fault, token, rfl⟩

/-! ### Main result -/

/-- Words that stand on one line. -/
def AreOnLine (line : Nat) (span : List Token) : Prop :=
  ∀ t ∈ span, t.line = line ∧ t.kind.isWord = true

theorem AreOnLine.mono {inside : List Token} (h : AreOnLine line span) (hsub : inside ⊆ span) :
    AreOnLine line inside := by
  intro t ht
  exact h t (hsub ht)

/-- Two readers of spans that make the same of words on a line: trees but for the grouping, or
    errors on one line. -/
def Regroups (line : Nat) (inner inner' : List Token → Logged ParseError Node) : Prop :=
  ∀ span, AreOnLine line span →
    PairedResults Regrouped ParseError.SamePlace (inner span).result (inner' span).result

/-- A line is read as an expression under both precedences or under none.  The trees are the same
    but for the grouping, and the errors are on the same line. -/
theorem regroups_readExpression (options : ReadOptions) (one two : Precedence) (line : Nat) :
    Regroups line (readExpression { options with precedence := one })
      (readExpression { options with precedence := two }) := by
  intro span h
  have hwords : ∀ t ∈ span, t.kind.isWord = true := fun t ht => (h t ht).2
  have hline : ∀ t ∈ span, t.line = line := fun t ht => (h t ht).1
  -- A span is read iff it has a derivation that is not nested too deeply, under any precedence.
  have hboth (p q : Precedence) (tree : Node)
      (h : (readExpression { options with precedence := p } span).result = .ok tree) :
      ∃ expression : Expression, tree = expression.tree p ∧
        (readExpression { options with precedence := q } span).result =
          .ok (expression.tree q) := by
    obtain ⟨expression, rfl, hdepth⟩ := exists_expression_of_read hwords h
    have hp := (expression.read { options with precedence := p } _).fits hdepth
    have hq := (expression.read { options with precedence := q } _).fits hdepth
    exact ⟨expression, Except.ok.inj (h.symm.trans hp), hq⟩
  cases hone : (readExpression { options with precedence := one } span).result with
  | ok tree =>
    obtain ⟨expression, rfl, htwo⟩ := hboth one two tree hone
    rw [htwo]
    exact .ok (expression.regrouped one two)
  | error e =>
    cases htwo : (readExpression { options with precedence := two } span).result with
    | ok tree =>
      obtain ⟨expression, -, hother⟩ := hboth two one tree htwo
      rw [hone] at hother
      cases hother
    | error f =>
      by_cases hsome : span = []
      · rw [hsome] at hone htwo
        cases hone
        cases htwo
        exact .error (ParseError.samePlace_refl _)
      · obtain ⟨_, _, rfl⟩ := exists_fault_of_readExpression hline hsome hone
        obtain ⟨_, _, rfl⟩ := exists_fault_of_readExpression hline hsome htwo
        exact .error ⟨rfl, rfl⟩

end CalcLang
