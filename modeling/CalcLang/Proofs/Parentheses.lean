import CalcLang.Span.Groups

/-! # Parentheses

    Cutting a span at depth zero and peeling the parentheses around it, said without the scan that
    does it:

    * `depthAfter`: how many parentheses are open behind a run of tokens.
    * `Balanced`: a run of tokens that closes every parenthesis it opens, and no other.
    * `splitGroups_eq_ok_iff`: the pieces of a span are the well-formed pieces that spell it.
    * `peelParens_group`, `peelParens_of_lead`: a pair of parentheses around a balanced span is
      peeled, and a pair that closes before the end is not. -/

namespace CalcLang

variable {token opening closing : Token} {rest span inner left right : List Token}
  {depth after : Nat}

/-! ### Balance -/

/-- The two parentheses. -/
def Kind.isParen : Kind → Bool
  | .openParen | .closeParen => true
  | _ => false

theorem Kind.paren_cases (kind : Kind) :
    kind = .openParen ∨ kind = .closeParen ∨ kind.isParen = false := by
  cases kind <;> simp [isParen]

/-- The number of parentheses that are open behind a run of tokens if `depth` are open before it.
    There is none if the run closes one that is not open. -/
def depthAfter : Nat → List Token → Option Nat
  | depth, [] => some depth
  | depth, token :: rest =>
    match token.kind, depth with
    | .openParen, depth => depthAfter (depth + 1) rest
    | .closeParen, 0 => none
    | .closeParen, depth + 1 => depthAfter depth rest
    | _, depth => depthAfter depth rest

@[simp] theorem depthAfter_nil : depthAfter depth [] = some depth := rfl

theorem depthAfter_open (h : token.kind = .openParen) :
    depthAfter depth (token :: rest) = depthAfter (depth + 1) rest := by
  simp [depthAfter, h]

theorem depthAfter_close_zero (h : token.kind = .closeParen) :
    depthAfter 0 (token :: rest) = none := by
  simp [depthAfter, h]

theorem depthAfter_close (h : token.kind = .closeParen) :
    depthAfter (depth + 1) (token :: rest) = depthAfter depth rest := by
  simp [depthAfter, h]

theorem depthAfter_word (h : token.kind.isParen = false) :
    depthAfter depth (token :: rest) = depthAfter depth rest := by
  cases hkind : token.kind <;> simp_all [depthAfter, Kind.isParen]

theorem depthAfter_append :
    depthAfter depth (left ++ right) = (depthAfter depth left).bind (depthAfter · right) := by
  induction left generalizing depth with
  | nil => rfl
  | cons token rest ih =>
    rw [List.cons_append]
    rcases token.kind.paren_cases with h | h | h
    · rw [depthAfter_open h, depthAfter_open h, ih]
    · cases depth with
      | zero => rw [depthAfter_close_zero h, depthAfter_close_zero h]; rfl
      | succ depth => rw [depthAfter_close h, depthAfter_close h, ih]
    · rw [depthAfter_word h, depthAfter_word h, ih]

/-- Parentheses that are open all along do not matter. -/
theorem depthAfter_add (more : Nat) (h : depthAfter depth span = some after) :
    depthAfter (depth + more) span = some (after + more) := by
  induction span generalizing depth with
  | nil =>
    cases h
    rfl
  | cons token rest ih =>
    rcases token.kind.paren_cases with ht | ht | ht
    · rw [depthAfter_open ht] at h ⊢
      rw [Nat.add_right_comm]
      exact ih h
    · cases depth with
      | zero => rw [depthAfter_close_zero ht] at h; cases h
      | succ depth =>
        rw [depthAfter_close ht] at h
        rw [Nat.add_right_comm, depthAfter_close ht]
        exact ih h
    · rw [depthAfter_word ht] at h ⊢
      exact ih h

/-- A run of tokens that closes every parenthesis it opens, and no other. -/
def Balanced (span : List Token) : Prop := depthAfter 0 span = some 0

namespace Balanced

theorem nil : Balanced [] := rfl

theorem word (h : token.kind.isParen = false) (hrest : Balanced rest) :
    Balanced (token :: rest) := by
  rw [Balanced, depthAfter_word h]
  exact hrest

theorem append (hleft : Balanced left) (hright : Balanced right) : Balanced (left ++ right) := by
  rw [Balanced, depthAfter_append, hleft]
  exact hright

theorem group (hopen : opening.kind = .openParen) (hinner : Balanced inner)
    (hclose : closing.kind = .closeParen) : Balanced (opening :: inner ++ [closing]) := by
  have hinside : depthAfter 1 inner = some 1 := depthAfter_add 1 hinner
  rw [Balanced, List.cons_append, depthAfter_open hopen, depthAfter_append, hinside]
  exact depthAfter_close hclose

end Balanced

/-! ### Cutting at depth zero -/

/-- A piece that a span can be cut into: a token that is no parenthesis, or a pair of parentheses
    around a balanced run that is not empty. -/
def Segment.WellFormed : Segment → Prop
  | .token token => token.kind.isParen = false
  | .group opening inner closing =>
    opening.kind = .openParen ∧ closing.kind = .closeParen ∧ inner ≠ [] ∧ Balanced inner

@[simp] theorem Segment.tokens_token (token : Token) : (Segment.token token).tokens = [token] := rfl

theorem splitFrom_word (h : token.kind.isParen = false) :
    splitFrom none (token :: rest) = (splitFrom none rest).map (.token token :: ·) := by
  rw [splitFrom]
  split
  · simp_all [Kind.isParen]
  · simp_all [Kind.isParen]
  · cases splitFrom none rest <;> rfl

/-- A run inside a group joins the tokens of the group. -/
theorem splitFrom_inside {collected : List Token} (h : depthAfter depth inner = some after) :
    splitFrom (some ⟨opening, collected, depth⟩) (inner ++ rest) =
      splitFrom (some ⟨opening, inner.reverse ++ collected, after⟩) rest := by
  -- A group collects its tokens last one first, so the run comes in front, reversed.
  induction inner generalizing depth collected with
  | nil =>
    cases h
    rfl
  | cons token inner ih =>
    rw [List.cons_append, List.reverse_cons, List.append_assoc]
    rcases token.kind.paren_cases with ht | ht | ht
    · rw [depthAfter_open ht] at h
      simp only [splitFrom, ht, ih h]
      rfl
    · cases depth with
      | zero => rw [depthAfter_close_zero ht] at h; cases h
      | succ depth =>
        rw [depthAfter_close ht] at h
        simp only [splitFrom, ht, ih h]
        rfl
    · rw [depthAfter_word ht] at h
      rw [splitFrom]
      split
      · simp_all [Kind.isParen]
      · simp_all [Kind.isParen]
      · simp_all [Kind.isParen]
      · rw [ih h]
        rfl

theorem splitFrom_group (hopen : opening.kind = .openParen) (hclose : closing.kind = .closeParen)
    (hne : inner ≠ []) (hinner : Balanced inner) :
    splitFrom none (opening :: inner ++ closing :: rest) =
      (splitFrom none rest).map (.group opening inner closing :: ·) := by
  have hfull : inner.reverse ≠ [] := by simpa using hne
  rw [List.cons_append]
  simp only [splitFrom, hopen]
  rw [splitFrom_inside hinner]
  simp only [splitFrom, hclose, List.append_nil, List.isEmpty_eq_false_iff.2 hfull,
    List.reverse_reverse]
  cases splitFrom none rest <;> rfl

/-- Well-formed pieces are found again in the span that they spell. -/
theorem splitGroups_flatMap {segments : List Segment} (h : ∀ s ∈ segments, s.WellFormed) :
    splitGroups (segments.flatMap Segment.tokens) = .ok segments := by
  induction segments with
  | nil => rfl
  | cons segment segments ih =>
    have hrest := ih fun s hs => h s (List.mem_cons_of_mem _ hs)
    have hfirst := h segment (List.mem_cons_self ..)
    rw [List.flatMap_cons]
    cases segment with
    | token token =>
      show splitFrom none (token :: segments.flatMap Segment.tokens) = _
      rw [splitFrom_word hfirst, show splitFrom none _ = _ from hrest]
      rfl
    | group opening inner closing =>
      obtain ⟨hopen, hclose, hne, hinner⟩ := hfirst
      have shape : (Segment.group opening inner closing).tokens ++
          segments.flatMap Segment.tokens =
          opening :: inner ++ closing :: segments.flatMap Segment.tokens := by
        simp [Segment.tokens]
      rw [shape, splitGroups, splitFrom_group hopen hclose hne hinner,
        show splitFrom none _ = _ from hrest]
      rfl

/-- The tokens of a group that is still being read. -/
def OpenGroup.tokens (group : OpenGroup) : List Token := group.opening :: group.inner.reverse

/-- A group that is still being read as the scan leaves it: its depth is the number of parentheses
    that are open inside. -/
def OpenGroup.WellFormed (group : OpenGroup) : Prop :=
  group.opening.kind = .openParen ∧ depthAfter 0 group.inner.reverse = some group.depth

/-- A token that joins a group that is still being read. -/
theorem OpenGroup.WellFormed.push {group : OpenGroup} (h : group.WellFormed)
    (hdepth : depthAfter group.depth [token] = some after) :
    (OpenGroup.mk group.opening (token :: group.inner) after).WellFormed := by
  refine ⟨h.1, ?_⟩
  rw [List.reverse_cons, depthAfter_append, h.2]
  exact hdepth

/-- What the scan returns is well-formed and spells what was read. -/
theorem wellFormed_of_splitFrom {pending : Option OpenGroup} {segments : List Segment}
    (h : splitFrom pending span = .ok segments) (hpending : ∀ g ∈ pending, g.WellFormed) :
    (∀ s ∈ segments, s.WellFormed) ∧
      segments.flatMap Segment.tokens = pending.elim [] OpenGroup.tokens ++ span := by
  -- The induction follows the scan.  Up to `case5` no group is open; from `case6` on there is one, and
  -- each step has to keep it well-formed.
  fun_induction splitFrom pending span generalizing segments with
  | case1 =>
    cases h
    simp
  | case2 group => cases h
  | case3 token rest hkind ih =>
    obtain ⟨hall, hspell⟩ := ih h (by rintro g ⟨⟩; exact ⟨hkind, rfl⟩)
    exact ⟨hall, by simpa [OpenGroup.tokens] using hspell⟩
  | case4 token rest hkind => cases h
  | case5 token rest hopen hclose ih =>
    cases hr : splitFrom none rest with
    | error e => simp [hr, bind, Except.bind] at h
    | ok later =>
      simp only [hr, bind, Except.bind, pure, Except.pure, Except.ok.injEq] at h
      obtain ⟨hall, hspell⟩ := ih hr (by simp)
      have hword : token.kind.isParen = false := by
        rcases token.kind.paren_cases with ht | ht | ht
        · exact absurd ht hopen
        · exact absurd ht hclose
        · exact ht
      subst h
      refine ⟨?_, by simpa [Segment.tokens] using hspell⟩
      intro s hs
      rcases List.mem_cons.1 hs with rfl | hs
      · exact hword
      · exact hall s hs
  | case6 group token rest hkind ih =>
    have hgroup := hpending group rfl
    obtain ⟨hall, hspell⟩ := ih h (by
      rintro g ⟨⟩
      exact hgroup.push (by rw [depthAfter_open hkind]; rfl))
    exact ⟨hall, by simpa [OpenGroup.tokens] using hspell⟩
  | case7 group token rest depth hdepth hkind ih =>
    have hgroup := hpending group rfl
    obtain ⟨hall, hspell⟩ := ih h (by
      rintro g ⟨⟩
      exact hgroup.push (by rw [hdepth, depthAfter_close hkind]; rfl))
    exact ⟨hall, by simpa [OpenGroup.tokens] using hspell⟩
  | case8 => cases h
  | case9 group token rest hdepth hkind hinner ih =>
    -- The token closes the group, since no parenthesis inside is left open.
    have hgroup := hpending group rfl
    cases hr : splitFrom none rest with
    | error e => simp [hr, bind, Except.bind] at h
    | ok later =>
      simp only [hr, bind, Except.bind, pure, Except.pure, Except.ok.injEq] at h
      obtain ⟨hall, hspell⟩ := ih hr (by simp)
      subst h
      refine ⟨?_, by simpa [Segment.tokens, OpenGroup.tokens] using hspell⟩
      intro s hs
      rcases List.mem_cons.1 hs with rfl | hs
      · refine ⟨hgroup.1, hkind, by simpa using hinner, ?_⟩
        rw [Balanced, hgroup.2, hdepth]
      · exact hall s hs
  | case10 group token rest hopen hclose hclose' ih =>
    have hgroup := hpending group rfl
    -- A closing parenthesis would have gone one of the ways before, by the depth of the group.
    have hword : token.kind.isParen = false := by
      rcases token.kind.paren_cases with ht | ht | ht
      · exact absurd ht hopen
      · cases hd : group.depth with
        | zero => exact absurd hd (hclose' ht)
        | succ depth => exact absurd hd (hclose depth ht)
      · exact ht
    obtain ⟨hall, hspell⟩ := ih h (by
      rintro g ⟨⟩
      exact hgroup.push (by rw [depthAfter_word hword]; rfl))
    exact ⟨hall, by simpa [OpenGroup.tokens] using hspell⟩

/-- A span is cut into some pieces if and only if they are well-formed and spell it. -/
theorem splitGroups_eq_ok_iff {segments : List Segment} :
    splitGroups span = .ok segments ↔
      (∀ s ∈ segments, s.WellFormed) ∧ segments.flatMap Segment.tokens = span := by
  constructor
  · intro h
    obtain ⟨hall, hspell⟩ := wellFormed_of_splitFrom h (by simp)
    exact ⟨hall, by simpa using hspell⟩
  · rintro ⟨hall, rfl⟩
    exact splitGroups_flatMap hall

theorem splitGroups_append {before after : List Segment} (hleft : splitGroups left = .ok before)
    (hright : splitGroups right = .ok after) :
    splitGroups (left ++ right) = .ok (before ++ after) := by
  obtain ⟨hbefore, rfl⟩ := splitGroups_eq_ok_iff.1 hleft
  obtain ⟨hafter, rfl⟩ := splitGroups_eq_ok_iff.1 hright
  rw [← List.flatMap_append]
  apply splitGroups_flatMap
  intro s hs
  rcases List.mem_append.1 hs with hs | hs
  · exact hbefore s hs
  · exact hafter s hs

theorem splitGroups_word (h : token.kind.isParen = false) :
    splitGroups [token] = .ok [.token token] := by
  rw [splitGroups, splitFrom_word h]
  rfl

theorem splitGroups_group (hopen : opening.kind = .openParen) (hclose : closing.kind = .closeParen)
    (hne : inner ≠ []) (hinner : Balanced inner) :
    splitGroups (opening :: inner ++ [closing]) = .ok [.group opening inner closing] := by
  rw [splitGroups, splitFrom_group hopen hclose hne hinner]
  rfl

/-- A span that can be cut is balanced. -/
theorem balanced_of_splitGroups {segments : List Segment} (h : splitGroups span = .ok segments) :
    Balanced span := by
  obtain ⟨hformed, rfl⟩ := splitGroups_eq_ok_iff.1 h
  -- The span has become what the pieces spell, so the induction is on the pieces alone.
  clear h
  induction segments with
  | nil => exact .nil
  | cons segment segments ih =>
    have hrest := ih fun s hs => hformed s (List.mem_cons_of_mem _ hs)
    have hsegment := hformed segment (List.mem_cons_self ..)
    rw [List.flatMap_cons]
    cases segment with
    | token token => exact .word hsegment hrest
    | group opening inner closing =>
      obtain ⟨hopen, hclose, -, hinner⟩ := hsegment
      exact (Balanced.group hopen hinner hclose).append hrest

/-! ### Peeling -/

theorem afterClosing_open (h : token.kind = .openParen) :
    afterClosing depth (token :: rest) = afterClosing (depth + 1) rest := by
  simp [afterClosing, h]

theorem afterClosing_close_zero (h : token.kind = .closeParen) :
    afterClosing 0 (token :: rest) = some rest := by
  simp [afterClosing, h]

theorem afterClosing_close (h : token.kind = .closeParen) :
    afterClosing (depth + 1) (token :: rest) = afterClosing depth rest := by
  simp [afterClosing, h]

theorem afterClosing_word (h : token.kind.isParen = false) :
    afterClosing depth (token :: rest) = afterClosing depth rest := by
  cases hkind : token.kind <;> simp_all [afterClosing, Kind.isParen]

/-- The search passes a run that never closes the parenthesis it looks for. -/
theorem afterClosing_inside (h : depthAfter depth inner = some after) :
    afterClosing depth (inner ++ rest) = afterClosing after rest := by
  induction inner generalizing depth with
  | nil =>
    cases h
    rfl
  | cons token inner ih =>
    rw [List.cons_append]
    rcases token.kind.paren_cases with ht | ht | ht
    · rw [depthAfter_open ht] at h
      rw [afterClosing_open ht, ih h]
    · cases depth with
      | zero => rw [depthAfter_close_zero ht] at h; cases h
      | succ depth =>
        rw [depthAfter_close ht] at h
        rw [afterClosing_close ht, ih h]
    · rw [depthAfter_word ht] at h
      rw [afterClosing_word ht, ih h]

/-- The search ends inside a run that closes every parenthesis that is open before it. -/
theorem afterClosing_closing (h : depthAfter (depth + 1) span = some 0) :
    ∃ tail, ∀ rest, afterClosing depth (span ++ rest) = some (tail ++ rest) := by
  -- The search is one parenthesis behind the depth: it ends where the depth falls to zero first.
  induction span generalizing depth with
  | nil => cases h
  | cons token span ih =>
    rcases token.kind.paren_cases with ht | ht | ht
    · rw [depthAfter_open ht] at h
      obtain ⟨tail, htail⟩ := ih h
      exact ⟨tail, fun rest => by rw [List.cons_append, afterClosing_open ht, htail]⟩
    · rw [depthAfter_close ht] at h
      cases depth with
      | zero => exact ⟨span, fun rest => by rw [List.cons_append, afterClosing_close_zero ht]⟩
      | succ depth =>
        obtain ⟨tail, htail⟩ := ih h
        exact ⟨tail, fun rest => by rw [List.cons_append, afterClosing_close ht, htail]⟩
    · rw [depthAfter_word ht] at h
      obtain ⟨tail, htail⟩ := ih h
      exact ⟨tail, fun rest => by rw [List.cons_append, afterClosing_word ht, htail]⟩

/-- A search that ends at the last token has found the parenthesis that closes all others. -/
theorem exists_closing_of_afterClosing (h : afterClosing depth span = some []) :
    ∃ inner closing, span = inner ++ [closing] ∧ closing.kind = .closeParen ∧
      depthAfter depth inner = some 0 := by
  induction span generalizing depth with
  | nil => cases h
  | cons token span ih =>
    rcases token.kind.paren_cases with ht | ht | ht
    · rw [afterClosing_open ht] at h
      obtain ⟨inner, closing, rfl, hclose, hinner⟩ := ih h
      exact ⟨token :: inner, closing, rfl, hclose, by rw [depthAfter_open ht, hinner]⟩
    · cases depth with
      | zero =>
        rw [afterClosing_close_zero ht, Option.some.injEq] at h
        exact ⟨[], token, by rw [h]; rfl, ht, rfl⟩
      | succ depth =>
        rw [afterClosing_close ht] at h
        obtain ⟨inner, closing, rfl, hclose, hinner⟩ := ih h
        exact ⟨token :: inner, closing, rfl, hclose, by rw [depthAfter_close ht, hinner]⟩
    · rw [afterClosing_word ht] at h
      obtain ⟨inner, closing, rfl, hclose, hinner⟩ := ih h
      exact ⟨token :: inner, closing, rfl, hclose, by rw [depthAfter_word ht, hinner]⟩

/-- A pair of parentheses around a balanced run is found. -/
theorem interior?_group (hopen : opening.kind = .openParen) (hinner : Balanced inner)
    (hclose : closing.kind = .closeParen) :
    interior? (opening :: inner ++ [closing]) = some inner := by
  have hfound : afterClosing 0 (inner ++ [closing]) = some [] := by
    rw [afterClosing_inside hinner, afterClosing_close_zero hclose]
  rw [List.cons_append, interior?, if_pos ⟨hopen, hfound⟩, List.dropLast_concat]

/-- What is found is a pair of parentheses around a balanced run. -/
theorem group_of_interior? (h : interior? span = some inner) :
    ∃ opening closing, span = opening :: inner ++ [closing] ∧ opening.kind = .openParen ∧
      closing.kind = .closeParen ∧ Balanced inner := by
  cases span with
  | nil => cases h
  | cons opening rest =>
    simp only [interior?, Option.ite_none_right_eq_some, Option.some.injEq] at h
    obtain ⟨⟨hopen, hfound⟩, rfl⟩ := h
    obtain ⟨inner, closing, rfl, hclose, hinner⟩ := exists_closing_of_afterClosing hfound
    rw [List.dropLast_concat]
    exact ⟨opening, closing, rfl, hopen, hclose, hinner⟩

/-- Nothing encloses the whole of a span that starts with a balanced part of it. -/
theorem interior?_of_lead (hleft : Balanced left) (hne : left ≠ []) (hright : right ≠ []) :
    interior? (left ++ right) = none := by
  cases left with
  | nil => exact absurd rfl hne
  | cons first left =>
    rw [List.cons_append, interior?, if_neg]
    rintro ⟨hopen, hfound⟩
    rw [Balanced, depthAfter_open hopen] at hleft
    obtain ⟨tail, htail⟩ := afterClosing_closing hleft
    rw [htail, Option.some.injEq] at hfound
    exact hright (List.append_eq_nil_iff.1 hfound).2

theorem peelParens_group (hopen : opening.kind = .openParen) (hinner : Balanced inner)
    (hclose : closing.kind = .closeParen) :
    peelParens (opening :: inner ++ [closing]) = peelParens inner := by
  rw [peelParens_eq, interior?_group hopen hinner hclose]

theorem peelParens_of_lead (hleft : Balanced left) (hne : left ≠ []) (hright : right ≠ []) :
    peelParens (left ++ right) = left ++ right := by
  rw [peelParens_eq, interior?_of_lead hleft hne hright]

/-- What holds of a peeled span and is kept by putting parentheses around a span holds of the span
    itself. -/
theorem peelParens_induction {P : List Token → Prop} (h : P (peelParens span))
    (hgroup : ∀ opening inner closing, opening.kind = .openParen → closing.kind = .closeParen →
      P inner → P (opening :: inner ++ [closing])) : P span := by
  -- Peeling a pair leaves a shorter span, so the induction is on the length.
  generalize hlength : span.length = length
  induction length using Nat.strongRecOn generalizing span with
  | ind length ih =>
    rw [peelParens_eq] at h
    cases hi : interior? span with
    | none =>
      rw [hi] at h
      exact h
    | some inner =>
      rw [hi] at h
      have shorter := length_lt_of_interior? hi
      obtain ⟨opening, closing, rfl, hopen, hclose, _⟩ := group_of_interior? hi
      exact hgroup opening inner closing hopen hclose (ih _ (hlength ▸ shorter) h rfl)

end CalcLang
