import CalcLang.Proofs.Condition.Comparison
import CalcLang.Proofs.Grouping
import Mathlib.Data.List.Basic

/-! # Peeling by places

    What peeling takes off a span is said by the places of its parentheses:

    * `IsPair`: the parenthesis at one place of a span is closed by the one at another place.
    * `IsPeeled`: a span is some parentheses, a core, and the parentheses that close them in reverse
      order, and no pair encloses the core.
    * `peelByPlaces`: a loop over the places of a span, with a depth that stops at zero.
    * `peelParens_exact`: the loop gives what `peelParens` gives, which is the only core of the span, and a
      balanced span is read as the same comparison with any number of parentheses around it. -/

namespace CalcLang

variable {token opening closing : Token} {span inner left right rest core opens closes : List Token}
  {place depth start stop : Nat}

/-! ### Pairs -/

/-- The parenthesis at one place of a span is closed by the one at another place: what stands between
    them closes what it opens. -/
structure IsPair (span : List Token) (start stop : Nat) : Prop where
  opening : ∃ token, span[start]? = some token ∧ token.kind = .openParen
  closing : ∃ token, span[stop]? = some token ∧ token.kind = .closeParen
  before : start < stop
  balanced : CountsBalance ((span.take stop).drop (start + 1))

/-- The ends of a span are a pair if they are parentheses and what is between them is balanced. -/
theorem isPair_group_iff :
    IsPair (opening :: inner ++ [closing]) 0 ((opening :: inner ++ [closing]).length - 1) ↔
      opening.kind = .openParen ∧ closing.kind = .closeParen ∧ Balanced inner := by
  have hend : (opening :: inner ++ [closing]).length - 1 = inner.length + 1 := by simp
  have hlast : (opening :: inner ++ [closing])[inner.length + 1]? = some closing := by simp
  have hbetween : ((opening :: inner ++ [closing]).take (inner.length + 1)).drop (0 + 1) = inner := by
    simp
  rw [hend]
  constructor
  · intro ⟨⟨first, hfirst, hopen⟩, ⟨last, hat, hclose⟩, _, hbalanced⟩
    cases hfirst
    rw [hlast, Option.some.injEq] at hat
    rw [hbetween, ← balanced_iff] at hbalanced
    exact ⟨hopen, hat ▸ hclose, hbalanced⟩
  · intro ⟨hopen, hclose, hbalanced⟩
    refine ⟨⟨opening, rfl, hopen⟩, ⟨closing, hlast, hclose⟩, Nat.succ_pos _, ?_⟩
    rw [hbetween, ← balanced_iff]
    exact hbalanced

/-- Tokens around a span move its pairs and leave them pairs. -/
theorem isPair_append (hstop : stop < inner.length) :
    IsPair (left ++ inner ++ right) (left.length + start) (left.length + stop) ↔
      IsPair inner start stop := by
  have hat (place : Nat) (hplace : place < inner.length) :
      (left ++ inner ++ right)[left.length + place]? = inner[place]? := by
    rw [List.append_assoc, getElem?_behind, List.getElem?_append_left hplace]
  have hbetween : ((left ++ inner ++ right).take (left.length + stop)).drop (left.length + start + 1) =
      (inner.take stop).drop (start + 1) := by
    rw [List.append_assoc, List.take_length_add_append, Nat.add_assoc, List.drop_length_add_append,
      List.take_append_of_le_length (Nat.le_of_lt hstop)]
  constructor
  · intro ⟨hopening, hclosing, hbefore, hbalanced⟩
    have hstart : start < stop := by omega
    rw [hat start (by omega)] at hopening
    rw [hat stop hstop] at hclosing
    rw [hbetween] at hbalanced
    exact ⟨hopening, hclosing, hstart, hbalanced⟩
  · intro ⟨hopening, hclosing, hstart, hbalanced⟩
    refine ⟨?_, ?_, by omega, ?_⟩
    · rw [hat start (by omega)]
      exact hopening
    · rw [hat stop hstop]
      exact hclosing
    · rw [hbetween]
      exact hbalanced

/-- A place in front and its counterpart at the back are a pair inside of two more tokens if they are one
    without them. -/
theorem isPair_inside_iff (hplace : place < inner.length) :
    IsPair (opening :: inner ++ [closing]) (place + 1)
        ((opening :: inner ++ [closing]).length - 1 - (place + 1)) ↔
      IsPair inner place (inner.length - 1 - place) := by
  have hstop : (opening :: inner ++ [closing]).length - 1 - (place + 1) =
      [opening].length + (inner.length - 1 - place) := by
    simp
    omega
  have hstart : place + 1 = [opening].length + place := Nat.add_comm ..
  have hmoved : IsPair ([opening] ++ inner ++ [closing]) ([opening].length + place)
      ([opening].length + (inner.length - 1 - place)) ↔ IsPair inner place (inner.length - 1 - place) :=
    isPair_append (by omega)
  rw [hstop, hstart]
  exact hmoved

/-- A span has an inside if its ends are a pair. -/
theorem exists_interior?_iff : (∃ inner, interior? span = some inner) ↔
    IsPair span 0 (span.length - 1) := by
  constructor
  · intro ⟨inner, h⟩
    obtain ⟨opening, closing, rfl, hopen, hclose, hinner⟩ := group_of_interior? h
    exact isPair_group_iff.2 ⟨hopen, hclose, hinner⟩
  · intro h
    have hlong : 0 < span.length - 1 := h.before
    -- A pair takes two tokens, so the first one is not the last one.
    cases span with
    | nil => simp at hlong
    | cons opening rest =>
      rcases List.eq_nil_or_concat' rest with rfl | ⟨inner, closing, rfl⟩
      · simp at hlong
      · rw [← List.cons_append] at h
        obtain ⟨hopen, hclose, hinner⟩ := isPair_group_iff.1 h
        exact ⟨inner, interior?_group hopen hinner hclose⟩

/-! ### Cores -/

/-- A span is some opening parentheses, a core, and as many closing ones.  The first parenthesis is closed
    by the last one, the second one by the last but one, and so on, and no such pair encloses the core. -/
structure IsPeeled (span opens core closes : List Token) : Prop where
  spells : span = opens ++ core ++ closes
  opening : ∀ t ∈ opens, t.kind = .openParen
  closing : ∀ t ∈ closes, t.kind = .closeParen
  same : opens.length = closes.length
  pairs : ∀ i < opens.length, IsPair span i (span.length - 1 - i)
  bare : ¬IsPair core 0 (core.length - 1)

/-- One more pair around a span is one more pair around its core. -/
theorem isPeeled_group_iff (hopen : opening.kind = .openParen) (hclose : closing.kind = .closeParen)
    (hinner : Balanced inner) :
    IsPeeled (opening :: inner ++ [closing]) (opening :: opens) core (closes ++ [closing]) ↔
      IsPeeled inner opens core closes := by
  constructor
  · intro ⟨hspells, hopens, hcloses, hsame, hpairs, hbare⟩
    rw [← List.append_assoc] at hspells
    have hparts : inner = opens ++ core ++ closes :=
      (List.cons.inj (List.append_inj_left' hspells rfl)).2
    have hlength : opens.length = closes.length := by simpa using hsame
    refine ⟨hparts, ?_, ?_, hlength, ?_, hbare⟩
    · intro t ht
      exact hopens t (List.mem_cons_of_mem _ ht)
    · intro t ht
      exact hcloses t (List.mem_append_left _ ht)
    · intro i hi
      have hin : i < inner.length := by
        rw [hparts]
        simp
        omega
      exact (isPair_inside_iff hin).1 (hpairs (i + 1) (Nat.succ_lt_succ hi))
  · intro ⟨hspells, hopens, hcloses, hsame, hpairs, hbare⟩
    refine ⟨by simp [hspells], List.forall_mem_cons.2 ⟨hopen, hopens⟩,
      List.forall_mem_append.2 ⟨hcloses, List.forall_mem_singleton.2 hclose⟩, by simp [hsame], ?_, hbare⟩
    -- The new pair is the one at the ends, and the others have moved by a place.
    intro i hi
    cases i with
    | zero => exact isPair_group_iff.2 ⟨hopen, hclose, hinner⟩
    | succ i =>
      have hin : i < inner.length := by
        rw [hspells]
        simp at hi ⊢
        omega
      exact (isPair_inside_iff hin).2 (hpairs i (Nat.lt_of_succ_lt_succ hi))

/-- What is left of a span is a core of it. -/
theorem exists_isPeeled (span : List Token) :
    ∃ opens closes, IsPeeled span opens (peelParens span) closes := by
  rw [peelParens_eq]
  cases hi : interior? span with
  | none =>
    have hbare : ¬IsPair span 0 (span.length - 1) := by
      rw [← exists_interior?_iff, hi]
      nofun
    exact ⟨[], [], by simp, nofun, nofun, rfl, nofun, hbare⟩
  | some inner =>
    have shorter := length_lt_of_interior? hi
    obtain ⟨opens, closes, h⟩ := exists_isPeeled inner
    obtain ⟨opening, closing, rfl, hopen, hclose, hinner⟩ := group_of_interior? hi
    exact ⟨opening :: opens, closes ++ [closing], (isPeeled_group_iff hopen hclose hinner).2 h⟩
termination_by span.length

theorem peelParens_eq_self_iff : peelParens span = span ↔ ¬IsPair span 0 (span.length - 1) := by
  rw [← exists_interior?_iff]
  constructor
  · intro h ⟨inner, hi⟩
    -- What is peeled off the inside would have to be longer than the inside.
    obtain ⟨opens, closes, hpeeled⟩ := exists_isPeeled inner
    have hlength := congrArg List.length hpeeled.spells
    have hshorter := length_lt_of_interior? hi
    rw [peelParens_eq, hi] at h
    simp only [h, List.length_append] at hlength
    omega
  · intro h
    rw [peelParens_eq]
    cases hi : interior? span with
    | none => rfl
    | some inner => exact absurd ⟨inner, hi⟩ h

/-- A span has one core. -/
theorem IsPeeled.core_eq (h : IsPeeled span opens core closes) : core = peelParens span := by
  induction opens generalizing span closes with
  | nil =>
    have hcloses : closes = [] := List.length_eq_zero_iff.1 h.same.symm
    have hspells : span = core := by simpa [hcloses] using h.spells
    rw [hspells, peelParens_eq_self_iff.2 h.bare]
  | cons opening opens ih =>
    rcases List.eq_nil_or_concat' closes with rfl | ⟨closes, closing, rfl⟩
    · have hsame := h.same
      cases hsame
    · have hspells : span = opening :: (opens ++ core ++ closes) ++ [closing] := by
        simpa using h.spells
      have hends := h.pairs 0 (Nat.succ_pos _)
      rw [hspells] at h hends ⊢
      obtain ⟨hopen, hclose, hinner⟩ := isPair_group_iff.1 hends
      rw [peelParens_group hopen hinner hclose]
      exact ih ((isPeeled_group_iff hopen hclose hinner).1 h)

/-- Parentheses around a balanced span are all peeled off. -/
theorem peelParens_enclosed (hspan : Balanced span) (hopens : ∀ t ∈ opens, t.kind = .openParen)
    (hcloses : ∀ t ∈ closes, t.kind = .closeParen) (hsame : opens.length = closes.length) :
    peelParens (opens ++ span ++ closes) = peelParens span := by
  -- The innermost pair joins the span, which stays balanced.
  induction closes generalizing opens span with
  | nil =>
    obtain rfl := List.length_eq_zero_iff.1 hsame
    simp
  | cons closing closes ih =>
    rcases List.eq_nil_or_concat' opens with rfl | ⟨opens, opening, rfl⟩
    · cases hsame
    · obtain ⟨hclose, hcloses⟩ := List.forall_mem_cons.1 hcloses
      obtain ⟨hopens, hopen⟩ := List.forall_mem_append.1 hopens
      have hopen : opening.kind = .openParen := hopen opening (List.mem_singleton_self _)
      have hlength : opens.length = closes.length := by simpa using hsame
      have hjoined := ih (Balanced.group hopen hspan hclose) hopens hcloses hlength
      rw [peelParens_group hopen hspan hclose] at hjoined
      simpa using hjoined

/-! ### A loop over places -/

/-- The place of the parenthesis that takes a depth to zero, if there is one.  A depth of zero is not taken
    below. -/
def closingPlace? : Nat → Nat → List Token → Option Nat
  | _, _, [] => none
  | depth, place, token :: rest =>
    match token.kind with
    | .openParen => closingPlace? (depth + 1) (place + 1) rest
    | .closeParen =>
      if depth - 1 = 0 then some place else closingPlace? (depth - 1) (place + 1) rest
    | _ => closingPlace? depth (place + 1) rest

/-- Whether the first token of a span opens a parenthesis that is closed at the last place. -/
def closesAtEnd (span : List Token) : Bool :=
  2 ≤ span.length && span.head?.map Token.kind == some .openParen &&
    span.getLast?.map Token.kind == some .closeParen &&
    closingPlace? 0 0 span == some (span.length - 1)

/-- Takes the first and the last token off a span for as long as the one closes the other. -/
def peelByPlaces (span : List Token) : List Token :=
  if h : closesAtEnd span then peelByPlaces ((span.take (span.length - 1)).drop 1) else span
termination_by span.length
decreasing_by
  simp only [closesAtEnd, Bool.and_eq_true, decide_eq_true_eq] at h
  simp
  omega

theorem closingPlace?_word (h : token.kind.isParen = false) :
    closingPlace? depth place (token :: rest) = closingPlace? depth (place + 1) rest := by
  cases hkind : token.kind <;> simp_all [closingPlace?, Kind.isParen]

/-- The loop finds the place before what `afterClosing` leaves. -/
theorem closingPlace?_eq_some_iff : closingPlace? (depth + 1) place rest = some stop ↔
    ∃ tail, afterClosing depth rest = some tail ∧ stop + 1 + tail.length = place + rest.length := by
  induction rest generalizing depth place with
  | nil => simp [closingPlace?, afterClosing]
  | cons token rest ih =>
    have hcount : place + (token :: rest).length = place + 1 + rest.length := by
      simp
      omega
    rw [hcount]
    rcases token.kind.paren_cases with ht | ht | ht
    · rw [afterClosing_open ht, ← ih]
      simp [closingPlace?, ht]
    · cases depth with
      | zero =>
        rw [afterClosing_close_zero ht]
        simp [closingPlace?, ht]
        omega
      | succ depth =>
        rw [afterClosing_close ht, ← ih]
        simp [closingPlace?, ht]
    · rw [afterClosing_word ht, closingPlace?_word ht, ih]

/-- The loop stops where there is no inside left, and goes on with the inside else. -/
theorem closesAtEnd_iff : closesAtEnd span = true ↔
    interior? span = some ((span.take (span.length - 1)).drop 1) := by
  constructor
  · intro h
    simp only [closesAtEnd, Bool.and_eq_true, decide_eq_true_eq, beq_iff_eq] at h
    obtain ⟨⟨⟨hlong, hfirst⟩, -⟩, hfound⟩ := h
    cases span with
    | nil => simp at hlong
    | cons first rest =>
      have hopen : first.kind = .openParen := by simpa using hfirst
      have hplace : closingPlace? (0 + 1) 1 rest = some rest.length := by
        simpa [closingPlace?, hopen] using hfound
      obtain ⟨tail, htail, hlength⟩ := closingPlace?_eq_some_iff.1 hplace
      obtain rfl : tail = [] := List.length_eq_zero_iff.1 (by omega)
      rw [interior?, if_pos ⟨hopen, htail⟩, List.dropLast_eq_take]
      cases rest with
      | nil => cases htail
      | cons second rest => simp
  · intro h
    obtain ⟨opening, closing, hspan, hopen, hclose, hinner⟩ := group_of_interior? h
    generalize (span.take (span.length - 1)).drop 1 = inner at h hspan hinner
    have hfound : closingPlace? 0 0 span = some (span.length - 1) := by
      have htail : afterClosing 0 (inner ++ [closing]) = some [] := by
        rw [afterClosing_inside hinner, afterClosing_close_zero hclose]
      have hplace : closingPlace? (0 + 1) 1 (inner ++ [closing]) = some (inner.length + 1) :=
        closingPlace?_eq_some_iff.2 ⟨[], htail, by simp; omega⟩
      rw [hspan]
      simpa [closingPlace?, hopen] using hplace
    have hlast : span.getLast? = some closing := by
      rw [hspan]
      exact List.getLast?_concat
    rw [closesAtEnd, hfound, hlast, hspan]
    simp [hopen, hclose]

theorem peelByPlaces_eq (span : List Token) : peelByPlaces span = peelParens span := by
  rw [peelByPlaces, peelParens_eq]
  by_cases h : closesAtEnd span = true
  · have hi := closesAtEnd_iff.1 h
    have shorter := length_lt_of_interior? hi
    rw [dif_pos h, hi]
    exact peelByPlaces_eq _
  · have hnone : interior? span = none := by
      cases hi : interior? span with
      | none => rfl
      | some inner =>
        obtain ⟨opening, closing, rfl, -⟩ := group_of_interior? hi
        exact absurd (closesAtEnd_iff.2 (by simpa using hi)) h
    rw [dif_neg h, hnone]
termination_by span.length

/-! ### Main result -/

/-- A loop over the places of a span, with a depth that stops at zero, gives what `peelParens` gives, and
    that is the only core of the span.  A span is left as it is if and only if its ends are no pair.  So
    a balanced span is read as the same comparison, or fails with the same error, with any number of
    parentheses around it. -/
theorem peelParens_exact (options : ReadOptions) (span : List Token) :
    peelByPlaces span = peelParens span ∧
      (∀ core, (∃ opens closes, IsPeeled span opens core closes) ↔ core = peelParens span) ∧
      (peelParens span = span ↔ ¬IsPair span 0 (span.length - 1)) ∧
      (CountsBalance span → ∀ opens closes : List Token,
        (∀ t ∈ opens, t.kind = .openParen) → (∀ t ∈ closes, t.kind = .closeParen) →
          opens.length = closes.length →
            readComparison options (opens ++ span ++ closes) = readComparison options span) := by
  refine ⟨peelByPlaces_eq span, ?_, peelParens_eq_self_iff, ?_⟩
  · intro core
    constructor
    · intro ⟨opens, closes, h⟩
      exact h.core_eq
    · rintro rfl
      exact exists_isPeeled span
  · intro hspan opens closes hopens hcloses hsame
    exact readComparison_congr (peelParens_enclosed (balanced_iff.2 hspan) hopens hcloses hsame)

/-- The tokens of `(A) == (B)`. -/
def sidesInParens : List Token :=
  [⟨.openParen, none, 1⟩, ⟨.var .scalar, some "A", 1⟩, ⟨.closeParen, none, 1⟩,
    ⟨.comparison .equal, none, 1⟩,
    ⟨.openParen, none, 1⟩, ⟨.var .scalar, some "B", 1⟩, ⟨.closeParen, none, 1⟩]

/-- Nothing is peeled off `(A) == (B)`, and what is peeled off `(((A) == (B)))` is what is around it. -/
theorem peelParens_exact_sides : peelParens sidesInParens = sidesInParens ∧
    readComparison .default ([⟨.openParen, none, 1⟩, ⟨.openParen, none, 1⟩] ++ sidesInParens ++
        [⟨.closeParen, none, 1⟩, ⟨.closeParen, none, 1⟩]) =
      readComparison .default sidesInParens := by
  obtain ⟨-, -, hends, henclosed⟩ := peelParens_exact .default sidesInParens
  refine ⟨hends.2 ?_, henclosed (balanced_iff.1 rfl) _ _ (by decide) (by decide) rfl⟩
  -- The parenthesis behind `A` closes one that is open before the stretch between the ends.
  intro hpair
  have henough := hpair.balanced.enough 2
  revert henough
  decide

end CalcLang
