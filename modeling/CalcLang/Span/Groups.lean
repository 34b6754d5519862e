import CalcLang.Error

/-!
# Groups

A span is a run of tokens on one line.  It is cut into pieces at depth zero: tokens outside any
parentheses, and groups, each with the pair of parentheses around it.

* `splitGroups`: the pieces of a span, or the first fault of its parentheses.
* `peelParens`: a span without the pairs of parentheses that enclose the whole of it.
-/

namespace CalcLang

/-- A piece of a span at depth zero. -/
inductive Segment where
  /-- A token outside any parentheses. -/
  | token (token : Token)
  /-- A group with its opening and its closing parenthesis. -/
  | group (opening : Token) (inner : List Token) (closing : Token)
  deriving DecidableEq, Repr

/-- The tokens of a piece, parentheses included. -/
def Segment.tokens : Segment → List Token
  | token t => [t]
  | group opening inner closing => opening :: inner ++ [closing]

/-- A group that is still being read. -/
structure OpenGroup where
  /-- The parenthesis that opened it. -/
  opening : Token
  /-- The tokens read since, last one first. -/
  inner : List Token
  /-- The number of further parentheses that are open inside. -/
  depth : Nat
  deriving DecidableEq, Repr

/-- The pieces of the rest of a span, where `pending` is the group being read, if there is one. -/
def splitFrom : Option OpenGroup → List Token → Except ParseError (List Segment)
  | none, [] => .ok []
  | some group, [] => .error (.pinned group.opening .unclosedParen)
  | none, token :: rest =>
    match token.kind with
    | .openParen => splitFrom (some ⟨token, [], 0⟩) rest
    | .closeParen => .error (.pinned token .unopenedParen)
    | _ => do
      let later ← splitFrom none rest
      pure (.token token :: later)
  | some group, token :: rest =>
    match token.kind, group.depth with
    | .openParen, depth => splitFrom (some ⟨group.opening, token :: group.inner, depth + 1⟩) rest
    | .closeParen, depth + 1 => splitFrom (some ⟨group.opening, token :: group.inner, depth⟩) rest
    | .closeParen, 0 =>
      if group.inner.isEmpty then
        .error (.pinned group.opening .emptyParens)
      else do
        let later ← splitFrom none rest
        pure (.group group.opening group.inner.reverse token :: later)
    | _, depth => splitFrom (some ⟨group.opening, token :: group.inner, depth⟩) rest

/-- The pieces of a span. -/
def splitGroups (span : List Token) : Except ParseError (List Segment) :=
  splitFrom none span

/-! ### Peeling -/

/-- What follows the parenthesis that closes the innermost of `depth + 1` open ones, if one does. -/
def afterClosing : Nat → List Token → Option (List Token)
  | _, [] => none
  | depth, token :: rest =>
    match token.kind, depth with
    | .openParen, depth => afterClosing (depth + 1) rest
    | .closeParen, 0 => some rest
    | .closeParen, depth + 1 => afterClosing depth rest
    | _, depth => afterClosing depth rest

/-- The inside of a span whose first token opens a parenthesis that its last token closes. -/
def interior? : List Token → Option (List Token)
  | [] => none
  | first :: rest =>
    if first.kind = .openParen ∧ afterClosing 0 rest = some [] then some rest.dropLast else none

/-- Peels at most a given number of pairs of parentheses. -/
def peelWithin : Nat → List Token → List Token
  | 0, span => span
  | rounds + 1, span =>
    match interior? span with
    | some inner => peelWithin rounds inner
    | none => span

/-- A span without the pairs of parentheses that enclose the whole of it.  There are fewer of them
    than tokens. -/
def peelParens (span : List Token) : List Token :=
  peelWithin span.length span

theorem length_lt_of_interior? {span inner : List Token} (h : interior? span = some inner) :
    inner.length < span.length := by
  cases span with
  | nil => simp [interior?] at h
  | cons first rest =>
    simp only [interior?, Option.ite_none_right_eq_some, Option.some.injEq] at h
    simp only [← h.2, List.length_dropLast, List.length_cons]
    omega

/-- Any bound that is no less than the number of tokens will do. -/
theorem peelWithin_congr {rounds rounds' : Nat} {span : List Token} (h : span.length ≤ rounds)
    (h' : span.length ≤ rounds') : peelWithin rounds span = peelWithin rounds' span := by
  induction rounds generalizing rounds' span with
  | zero =>
    obtain rfl := List.length_eq_zero_iff.1 (Nat.le_zero.1 h)
    cases rounds' <;> rfl
  | succ rounds ih =>
    cases rounds' with
    | zero =>
      obtain rfl := List.length_eq_zero_iff.1 (Nat.le_zero.1 h')
      rfl
    | succ rounds' =>
      simp only [peelWithin]
      cases hi : interior? span with
      | none => rfl
      | some inner =>
        have shorter := length_lt_of_interior? hi
        exact ih (by omega) (by omega)

/-- One pair is peeled after another. -/
theorem peelParens_eq (span : List Token) :
    peelParens span = match interior? span with
      | some inner => peelParens inner
      | none => span := by
  have enough : peelParens span = peelWithin (span.length + 1) span :=
    peelWithin_congr (Nat.le_refl _) (Nat.le_succ _)
  rw [enough, peelWithin]
  cases hi : interior? span with
  | none => rfl
  | some inner =>
    exact peelWithin_congr (Nat.le_of_lt (length_lt_of_interior? hi)) (Nat.le_refl _)

end CalcLang
