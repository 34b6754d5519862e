import CalcLang.Proofs.Condition.Relabelling
import CalcLang.Proofs.Program.Pairing
import CalcLang.Proofs.Scan.Lines

/-! # Programs on other lines

    The same tokens on other lines are the same program on other lines:

    * `relining`: the relabelling of spans that only changes lines.
    * `onOtherLines`: the pairing of a run with the run on other lines.
    * `IsBlock.relined`: the tokens of a program, put on other lines, are a program of the grammar
      with its trees and its notes on these lines.
    * `compile_relined`: what is compiled from tokens on other lines is the same on these lines, be it
      a tree or an error. -/

namespace CalcLang

open Reading

variable {f : Nat → Nat} {options : ReadOptions} {body skipped : List Token}
  {statements : List Node}

/-- A tree on other lines. -/
def Node.relined (f : Nat → Nat) : Node → Node := .map (Token.relined f)

/-- An error on another line. -/
def ParseError.relined (f : Nat → Nat) : ParseError → ParseError
  | .lexical error => .lexical (error.relined f)
  | .grammar fault token line => .grammar fault token (line.map f)
  | .unsupported feature line => .unsupported feature (f line)

/-- A note on another line. -/
def Diagnostic.relined (f : Nat → Nat) (note : Diagnostic) : Diagnostic :=
  { note with line := f note.line }

/-! ### Spans -/

/-- Tokens on other lines, as a relabelling. -/
def relining (f : Nat → Nat) : Relabelling where
  token := .relined f
  error := .relined f
  kind_token _ := rfl
  token_phrase _ _ := rfl
  error_nowhere _ _ := rfl
  error_pinned _ _ _ := rfl
  error_orphan t span := by
    rw [quoteSpan_relined]
    rfl

/-! ### Programs -/

theorem forall₂_eq_map {α β : Type} {g : α → β} {xs : List α} {ys : List β} :
    List.Forall₂ (fun a b => b = g a) xs ys ↔ ys = xs.map g := by
  constructor
  · intro h
    induction h with
    | nil => rfl
    | cons hfirst hrest ih => rw [List.map_cons, hfirst, ih]
  · intro h
    rw [h, List.forall₂_map_right_iff]
    exact List.forall₂_same.2 fun _ _ => rfl

theorem pairedResults_of_result {result result' : Except ParseError Node}
    (h : result' = (relining f).result (relining f).node result) :
    PairedResults (fun a b => b = a.relined f) (fun e e' => e' = e.relined f) result result' := by
  rw [h]
  cases result with
  | ok node => exact .ok rfl
  | error error => exact .error rfl

/-- A run beside the one on other lines.  The two never part. -/
def onOtherLines (f : Nat → Nat) : Pairing where
  options := Eq
  token a b := b = a.relined f
  node a b := b = a.relined f
  note d e := e = d.relined f
  error d e := e = d.relined f
  span _ := True
  parted _ _ := False
  kind_eq h := by rw [h]; rfl
  requireTitle_eq h := by rw [h]
  node_branch h hs := by
    rw [h, forall₂_eq_map.1 hs]
    exact ((relining f).node_branch _ _).symm
  node_block h hs := by
    rw [h, forall₂_eq_map.1 hs]
    exact ((relining f).node_phrase .block _ _).symm
  error_pinned fault h := by rw [h]; rfl
  error_unsupported feature h := by rw [h]; rfl
  span_prefix _ _ := trivial
  expression h _ hs := by
    rw [h, forall₂_eq_map.1 hs]
    exact pairedResults_of_result ((relining f).relabels_readExpression _ _)
  condition h _ hs := by
    rw [h, forall₂_eq_map.1 hs]
    exact pairedResults_of_result ((relining f).relabels_readCondition _ _)
  unknown h htoken := by
    refine .inl ⟨by rw [h], ?_⟩
    rw [htoken]
    rfl
  parted_append _ h := h

theorem sessions_relined (f : Nat → Nat) (options : ReadOptions) (body : List Token)
    (last : Nat) :
    (onOtherLines f).Sessions ⟨options, [], body, last, [], []⟩
      ⟨options, [], body.map (Token.relined f), f last, [], []⟩ :=
  ⟨rfl, .nil, forall₂_eq_map.2 rfl, rfl, .nil, fun _ _ _ => trivial⟩

/-- The tokens of a program, put on other lines, are a program of the grammar with its trees and its
    notes on these lines. -/
theorem IsBlock.relined (f : Nat → Nat)
    (h : IsBlock options .program [] body [] skipped statements) :
    ∃ skipped', IsBlock options .program [] (body.map (Token.relined f)) [] skipped'
        (statements.map (Node.relined f)) ∧
      skipped'.map Diagnostic.ofSkipped =
        (skipped.map Diagnostic.ofSkipped).map (Diagnostic.relined f) := by
  have hsessions := sessions_relined f options body 0
  obtain ⟨last, hread, hmoves⟩ := h.reads ⟨options, [], body, 0, [], []⟩
    ⟨rfl, rfl, (List.append_nil body).symm⟩
  -- The program is read on its own lines, and so it is on the other ones.
  have hruns := (onOtherLines f).agree_readBlock .program _ _ hsessions
  rw [hread] at hruns
  generalize hother : readBlock .program _ = two at hruns
  cases hruns with
  | partedOk hparted => exact hparted.elim
  | ok hstatements hlast =>
    obtain rfl := forall₂_eq_map.1 hstatements
    obtain ⟨skipped', hmoves', hblock⟩ := isBlock_of_readProgram ⟨rfl, rfl, rfl⟩ hother
    refine ⟨skipped', hblock, ?_⟩
    have hnotes := forall₂_eq_map.1 hlast.diagnostics
    rw [hmoves.diagnostics, hmoves'.diagnostics] at hnotes
    exact hnotes

/-! ### Compilations -/

/-- A compiled program on other lines.  The root stands for the whole program and has no line. -/
def Compilation.relined (f : Nat → Nat) (compilation : Compilation) : Compilation where
  root := { compilation.root with children := compilation.root.children.map (Node.relined f) }
  diagnostics := compilation.diagnostics.map (Diagnostic.relined f)

/-- What comes of a compilation, on other lines. -/
def relinedOutcome (f : Nat → Nat) :
    Except ParseError Compilation → Except ParseError Compilation
  | .ok compilation => .ok (compilation.relined f)
  | .error error => .error (error.relined f)

theorem title?_relined (f : Nat → Nat) (statements : List Node) :
    title? (statements.map (Node.relined f)) = title? statements := by
  cases statements with
  | nil => rfl
  | cons first rest =>
    obtain ⟨token, name, children⟩ := first
    cases children with
    | nil => rfl
    | cons child others =>
      obtain ⟨inner, name', children'⟩ := child
      rfl

theorem programTree_relined (f : Nat → Nat) (statements : List Node) :
    programTree (statements.map (Node.relined f)) =
      { programTree statements with
        children := (programTree statements).children.map (Node.relined f) } := by
  unfold programTree
  rw [title?_relined]

/-- What is compiled from tokens on other lines is the same on these lines, be it a tree or an
    error. -/
theorem compile_relined (f : Nat → Nat) (options : ReadOptions) (body : List Token) (last : Nat) :
    (Session.compile ⟨options, [], body.map (Token.relined f), f last, [], []⟩).result =
      relinedOutcome f (Session.compile ⟨options, [], body, last, [], []⟩).result := by
  have hruns := (onOtherLines f).paired_compile (fun _ _ h => h)
    (sessions_relined f options body last)
  generalize (Session.compile ⟨options, [], body, last, [], []⟩).result = one,
    (Session.compile ⟨options, [], body.map (Token.relined f), f last, [], []⟩).result = two
    at hruns ⊢
  cases hruns with
  | error herror => exact congrArg Except.error herror
  | ok h =>
    obtain ⟨hstatements, hnotes⟩ := h
    obtain rfl := forall₂_eq_map.1 hstatements
    obtain rfl := forall₂_eq_map.1 hnotes
    rw [programTree_relined]
    rfl

end CalcLang
