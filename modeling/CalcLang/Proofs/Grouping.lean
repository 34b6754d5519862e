import CalcLang.Proofs.Parentheses

/-! # Groups by their places

    Cutting a span is said by counting parentheses, and by the places of the tokens in the span:

    * `opened`, `closed`, `IsOutside`: the parentheses in a span, and the places that none is open
      before.
    * `FirstFault`: the leftmost offence in a span, or the parenthesis that is never closed.
    * `stretches?`: a pass over the places of a span, with a depth and the place of one open
      parenthesis.
    * `splitGroups_exact`: the pass gives the pieces of `splitGroups` by their places; there are some iff
      the counts balance and no pair is empty, and they part the span; and else the error is that of the
      first fault. -/

namespace CalcLang

variable {token opening closing : Token} {span inner left right rest : List Token}
  {segments : List Segment} {error : ParseError} {place base depth after : Nat}

/-! ### Counting -/

/-- The number of parentheses that a span opens. -/
def opened (span : List Token) : Nat := span.countP (·.kind == .openParen)

/-- The number of parentheses that a span closes. -/
def closed (span : List Token) : Nat := span.countP (·.kind == .closeParen)

/-- No prefix of a span closes more parentheses than it opens, and the whole closes as many. -/
structure CountsBalance (span : List Token) : Prop where
  enough : ∀ count, closed (span.take count) ≤ opened (span.take count)
  total : opened span = closed span

/-- As many parentheses are closed before a place of a span as are opened there. -/
def IsOutside (span : List Token) (place : Nat) : Prop :=
  opened (span.take place) = closed (span.take place)

@[simp] theorem opened_nil : opened [] = 0 := rfl

@[simp] theorem closed_nil : closed [] = 0 := rfl

@[simp] theorem opened_append : opened (left ++ right) = opened left + opened right :=
  List.countP_append

@[simp] theorem closed_append : closed (left ++ right) = closed left + closed right :=
  List.countP_append

theorem opened_cons_open (h : token.kind = .openParen) :
    opened (token :: rest) = opened rest + 1 := by
  simp [opened, h]

theorem opened_cons_of_ne (h : token.kind ≠ .openParen) : opened (token :: rest) = opened rest := by
  simp [opened, h]

theorem closed_cons_close (h : token.kind = .closeParen) :
    closed (token :: rest) = closed rest + 1 := by
  simp [closed, h]

theorem closed_cons_of_ne (h : token.kind ≠ .closeParen) : closed (token :: rest) = closed rest := by
  simp [closed, h]

theorem Kind.ne_of_isParen {kind : Kind} (h : kind.isParen = false) :
    kind ≠ .openParen ∧ kind ≠ .closeParen := by
  constructor <;> rintro rfl <;> cases h

theorem Kind.isParen_of_ne {kind : Kind} (hopen : kind ≠ .openParen) (hclose : kind ≠ .closeParen) :
    kind.isParen = false := by
  rcases kind.paren_cases with h | h | h
  · exact absurd h hopen
  · exact absurd h hclose
  · exact h

/-- The depth behind a span is what the counts leave, and no prefix takes it below zero. -/
theorem depthAfter_eq_some_iff :
    depthAfter depth span = some after ↔
      (∀ count, closed (span.take count) ≤ depth + opened (span.take count)) ∧
        after + closed span = depth + opened span := by
  -- The prefixes of a span are the empty one and those that go on behind its first token.
  have hprefixes (token : Token) (rest : List Token) (depth : Nat) :
      (∀ count, closed ((token :: rest).take count) ≤ depth + opened ((token :: rest).take count)) ↔
        ∀ count, closed (token :: rest.take count) ≤ depth + opened (token :: rest.take count) := by
    constructor
    · intro h count
      exact h (count + 1)
    · intro h count
      cases count with
      | zero => simp
      | succ count => exact h count
  induction span generalizing depth with
  | nil =>
    simp
    omega
  | cons token rest ih =>
    rw [hprefixes]
    rcases token.kind.paren_cases with ht | ht | ht
    · have hne : token.kind ≠ .closeParen := by simp [ht]
      rw [depthAfter_open ht]
      refine ih.trans ?_
      simp only [opened_cons_open ht, closed_cons_of_ne hne]
      constructor <;> intro ⟨hcounts, htotal⟩
      · exact ⟨fun count => by have := hcounts count; omega, by omega⟩
      · exact ⟨fun count => by have := hcounts count; omega, by omega⟩
    · have hne : token.kind ≠ .openParen := by simp [ht]
      simp only [opened_cons_of_ne hne, closed_cons_close ht]
      cases depth with
      | zero =>
        rw [depthAfter_close_zero ht]
        constructor
        · intro h
          cases h
        · intro ⟨hcounts, _⟩
          have hfirst := hcounts 0
          simp at hfirst
      | succ depth =>
        rw [depthAfter_close ht]
        refine ih.trans ?_
        constructor <;> intro ⟨hcounts, htotal⟩
        · exact ⟨fun count => by have := hcounts count; omega, by omega⟩
        · exact ⟨fun count => by have := hcounts count; omega, by omega⟩
    · obtain ⟨hopen, hclose⟩ := Kind.ne_of_isParen ht
      rw [depthAfter_word ht]
      refine ih.trans ?_
      simp only [opened_cons_of_ne hopen, closed_cons_of_ne hclose]

theorem balanced_iff : Balanced span ↔ CountsBalance span := by
  unfold Balanced
  rw [depthAfter_eq_some_iff]
  constructor
  · intro ⟨hcounts, htotal⟩
    exact ⟨fun count => by simpa using hcounts count, by omega⟩
  · intro ⟨hcounts, htotal⟩
    exact ⟨fun count => by simpa using hcounts count, by omega⟩

/-- A piece closes what it opens. -/
theorem Segment.WellFormed.counts {segment : Segment} (h : segment.WellFormed) :
    opened segment.tokens = closed segment.tokens := by
  have hone : splitGroups segment.tokens = .ok [segment] :=
    splitGroups_eq_ok_iff.2 ⟨List.forall_mem_singleton.2 h, by simp⟩
  exact (balanced_iff.1 (balanced_of_splitGroups hone)).total

/-! ### Places -/

theorem getElem?_behind (left right : List Token) (place : Nat) :
    (left ++ right)[left.length + place]? = right[place]? := by
  rw [List.getElem?_append_right (Nat.le_add_right _ _), Nat.add_sub_cancel_left]

theorem isOutside_zero (span : List Token) : IsOutside span 0 := rfl

/-- Behind a part that closes what it opens, the places are outside as they are without it. -/
theorem isOutside_append (h : opened left = closed left) :
    IsOutside (left ++ right) (left.length + place) ↔ IsOutside right place := by
  unfold IsOutside
  rw [List.take_length_add_append, opened_append, closed_append]
  omega

/-- No place inside a group is outside, nor is the one of its closing parenthesis. -/
theorem not_isOutside_group (hopen : opening.kind = .openParen)
    (hinner : depthAfter 0 inner = some depth) (hplace : place ≤ inner.length) :
    ¬IsOutside (opening :: inner ++ rest) (place + 1) := by
  have hne : opening.kind ≠ .closeParen := by simp [hopen]
  have hcounts := (depthAfter_eq_some_iff.1 hinner).1 place
  unfold IsOutside
  rw [List.cons_append, List.take_succ_cons, List.take_append_of_le_length hplace,
    opened_cons_open hopen, closed_cons_of_ne hne]
  omega

/-! ### Offences -/

/-- An offence at a place outside of all parentheses: a parenthesis that closes nothing, or a pair of
    parentheses around nothing. -/
inductive Offence (span : List Token) (place : Nat) : ParseError → Prop
  | unopened {closing : Token} (hat : span[place]? = some closing)
      (hclose : closing.kind = .closeParen) (houtside : IsOutside span place) :
      Offence span place (.pinned closing .unopenedParen)
  | empty {opening closing : Token} (hat : span[place]? = some opening)
      (hopen : opening.kind = .openParen) (hbehind : span[place + 1]? = some closing)
      (hclose : closing.kind = .closeParen) (houtside : IsOutside span place) :
      Offence span place (.pinned opening .emptyParens)

/-- What is wrong with a span: its leftmost offence, or if there is none, the outermost parenthesis that
    is never closed. -/
inductive FirstFault (span : List Token) : ParseError → Prop
  | offence {place : Nat} {error : ParseError} (h : Offence span place error)
      (hfirst : ∀ earlier < place, ∀ other, ¬Offence span earlier other) : FirstFault span error
  | unclosed {place : Nat} {opening : Token} (hnone : ∀ place error, ¬Offence span place error)
      (hat : span[place]? = some opening) (hopen : opening.kind = .openParen)
      (houtside : IsOutside span place) (hnever : ∀ later, place < later → ¬IsOutside span later) :
      FirstFault span (.pinned opening .unclosedParen)

theorem Offence.isOutside (h : Offence span place error) : IsOutside span place := by
  cases h with
  | unopened _ _ houtside => exact houtside
  | empty _ _ _ _ houtside => exact houtside

/-- There is one offence at a place. -/
theorem Offence.unique {other : ParseError} (h : Offence span place error)
    (h' : Offence span place other) : error = other := by
  cases h with
  | unopened hat hclose =>
    cases h' with
    | unopened hat' =>
      rw [hat] at hat'
      cases hat'
      rfl
    | empty hat' hopen =>
      rw [hat] at hat'
      cases hat'
      rw [hclose] at hopen
      cases hopen
  | empty hat hopen =>
    cases h' with
    | unopened hat' hclose =>
      rw [hat] at hat'
      cases hat'
      rw [hopen] at hclose
      cases hclose
    | empty hat' =>
      rw [hat] at hat'
      cases hat'
      rfl

theorem FirstFault.unique {other : ParseError} (h : FirstFault span error)
    (h' : FirstFault span other) : error = other := by
  cases h with
  | @offence place _ h hfirst =>
    cases h' with
    | @offence place' _ h' hfirst' =>
      rcases Nat.lt_trichotomy place place' with hlt | rfl | hlt
      · exact absurd h (hfirst' place hlt _)
      · exact h.unique h'
      · exact absurd h' (hfirst place' hlt _)
    | unclosed hnone => exact absurd h (hnone _ _)
  | @unclosed place opening hnone hat hopen houtside hnever =>
    cases h' with
    | offence h' => exact absurd h' (hnone _ _)
    | @unclosed place' opening' _ hat' _ houtside' hnever' =>
      rcases Nat.lt_trichotomy place place' with hlt | rfl | hlt
      · exact absurd houtside' (hnever place' hlt)
      · rw [hat] at hat'
        cases hat'
        rfl
      · exact absurd houtside (hnever' place hlt)

/-- Behind a part that closes what it opens, the offences are those of the rest. -/
theorem offence_append (h : opened left = closed left) :
    Offence (left ++ right) (left.length + place) error ↔ Offence right place error := by
  constructor
  · intro hoffence
    have houtside := (isOutside_append h).1 hoffence.isOutside
    cases hoffence with
    | unopened hat hclose =>
      rw [getElem?_behind] at hat
      exact .unopened hat hclose houtside
    | empty hat hopen hbehind hclose =>
      rw [getElem?_behind] at hat
      rw [Nat.add_assoc, getElem?_behind] at hbehind
      exact .empty hat hopen hbehind hclose houtside
  · intro hoffence
    have houtside : IsOutside (left ++ right) (left.length + place) :=
      (isOutside_append h).2 hoffence.isOutside
    cases hoffence with
    | unopened hat hclose =>
      rw [← getElem?_behind left] at hat
      exact .unopened hat hclose houtside
    | empty hat hopen hbehind hclose =>
      rw [← getElem?_behind left] at hat hbehind
      exact .empty hat hopen hbehind hclose houtside

theorem not_offence_word (h : token.kind.isParen = false) : ¬Offence (token :: rest) 0 error := by
  obtain ⟨hopen, hclose⟩ := Kind.ne_of_isParen h
  intro hoffence
  cases hoffence with
  | unopened hat hkind =>
    cases hat
    exact hclose hkind
  | empty hat hkind =>
    cases hat
    exact hopen hkind

/-- A group that is not empty has no offence in it, whether or not it is closed. -/
theorem not_offence_group (hopen : opening.kind = .openParen)
    (hinner : depthAfter 0 inner = some depth) (hfull : inner ≠ [] ∨ rest = [])
    (hplace : place ≤ inner.length + 1) : ¬Offence (opening :: inner ++ rest) place error := by
  intro hoffence
  cases place with
  | zero =>
    cases hoffence with
    | unopened hat hclose =>
      cases hat
      rw [hopen] at hclose
      cases hclose
    | empty _ _ hbehind hclose =>
      -- A parenthesis right behind the opening one would have to be the first one inside.
      cases inner with
      | nil =>
        obtain rfl : rest = [] := by simpa using hfull
        cases hbehind
      | cons first inner =>
        cases hbehind
        rw [depthAfter_close_zero hclose] at hinner
        cases hinner
  | succ place => exact not_isOutside_group hopen hinner (by omega) hoffence.isOutside

/-- Behind a parenthesis that is not closed, the depth never falls back to what it is before it. -/
theorem not_isOutside_unclosed (hopen : opening.kind = .openParen)
    (hinner : depthAfter 0 inner = some depth) (later : Nat) :
    ¬IsOutside (opening :: inner) (later + 1) := by
  have hwithin (place : Nat) (hplace : place ≤ inner.length) :
      ¬IsOutside (opening :: inner ++ []) (place + 1) :=
    not_isOutside_group hopen hinner hplace
  rw [List.append_nil] at hwithin
  by_cases hlater : later ≤ inner.length
  · exact hwithin later hlater
  · -- The places behind the span are as its end is.
    have hend := hwithin inner.length (Nat.le_refl _)
    unfold IsOutside at hend ⊢
    rw [List.take_succ_cons, List.take_length] at hend
    rwa [List.take_succ_cons, List.take_of_length_le (by omega)]

theorem not_offence_unclosed (hopen : opening.kind = .openParen)
    (hinner : depthAfter 0 inner = some depth) : ¬Offence (opening :: inner) place error := by
  intro hoffence
  cases place with
  | zero =>
    have hnone : ¬Offence (opening :: inner ++ []) 0 error :=
      not_offence_group hopen hinner (.inr rfl) (Nat.zero_le _)
    rw [List.append_nil] at hnone
    exact hnone hoffence
  | succ later => exact not_isOutside_unclosed hopen hinner later hoffence.isOutside

/-- There is no offence in a part that can be cut. -/
theorem not_offence_of_splitGroups (h : splitGroups left = .ok segments)
    (hplace : place < left.length) : ¬Offence (left ++ right) place error := by
  obtain ⟨hformed, rfl⟩ := splitGroups_eq_ok_iff.1 h
  clear h
  induction segments generalizing place with
  | nil => simp at hplace
  | cons segment segments ih =>
    obtain ⟨hsegment, hrest⟩ := List.forall_mem_cons.1 hformed
    have hcounts := hsegment.counts
    rw [List.flatMap_cons, List.append_assoc]
    rw [List.flatMap_cons, List.length_append] at hplace
    by_cases hfirst : place < segment.tokens.length
    · cases segment with
      | token token =>
        obtain rfl : place = 0 := Nat.lt_one_iff.1 hfirst
        exact not_offence_word hsegment
      | group opening inner closing =>
        obtain ⟨hopen, -, hfull, hinner⟩ := hsegment
        simp only [Segment.tokens, List.length_append, List.length_cons, List.length_nil] at hfirst
        rw [Segment.tokens, List.append_assoc]
        exact not_offence_group hopen hinner (.inl hfull) (by omega)
    · obtain ⟨later, rfl⟩ := Nat.exists_eq_add_of_le (Nat.le_of_not_lt hfirst)
      rw [offence_append hcounts]
      exact ih hrest (by omega)

theorem not_offence_of_splitGroups_self (h : splitGroups span = .ok segments) (place : Nat)
    (error : ParseError) : ¬Offence span place error := by
  intro hoffence
  have hplace : place < span.length := by
    cases hoffence with
    | unopened hat => exact (List.getElem?_eq_some_iff.1 hat).1
    | empty hat => exact (List.getElem?_eq_some_iff.1 hat).1
  have hclear : ¬Offence (span ++ []) place error := not_offence_of_splitGroups h hplace
  rw [List.append_nil] at hclear
  exact hclear hoffence

/-! ### Spans that cannot be cut -/

/-- A part of a span can be cut, and what comes behind it is at fault. -/
inductive BreaksOff : List Token → ParseError → Prop
  | unopened {done rest : List Token} {segments : List Segment} {closing : Token}
      (hdone : splitGroups done = .ok segments) (hclose : closing.kind = .closeParen) :
      BreaksOff (done ++ closing :: rest) (.pinned closing .unopenedParen)
  | empty {done rest : List Token} {segments : List Segment} {opening closing : Token}
      (hdone : splitGroups done = .ok segments) (hopen : opening.kind = .openParen)
      (hclose : closing.kind = .closeParen) :
      BreaksOff (done ++ opening :: closing :: rest) (.pinned opening .emptyParens)
  | unclosed {done inner : List Token} {segments : List Segment} {opening : Token} {depth : Nat}
      (hdone : splitGroups done = .ok segments) (hopen : opening.kind = .openParen)
      (hinner : depthAfter 0 inner = some depth) :
      BreaksOff (done ++ opening :: inner) (.pinned opening .unclosedParen)

/-- More can be cut in front. -/
theorem BreaksOff.append (hleft : splitGroups left = .ok segments) (h : BreaksOff right error) :
    BreaksOff (left ++ right) error := by
  cases h with
  | unopened hdone hclose =>
    rw [← List.append_assoc]
    exact .unopened (splitGroups_append hleft hdone) hclose
  | empty hdone hopen hclose =>
    rw [← List.append_assoc]
    exact .empty (splitGroups_append hleft hdone) hopen hclose
  | unclosed hdone hopen hinner =>
    rw [← List.append_assoc]
    exact .unclosed (splitGroups_append hleft hdone) hopen hinner

/-- Where the scan fails. -/
theorem breaksOff_of_splitFrom {pending : Option OpenGroup}
    (h : splitFrom pending span = .error error) (hpending : ∀ g ∈ pending, g.WellFormed) :
    BreaksOff (pending.elim [] OpenGroup.tokens ++ span) error := by
  -- Along the scan the group that is being read stays well-formed, as in `wellFormed_of_splitFrom`.
  fun_induction splitFrom pending span with
  | case1 => cases h
  | case2 group =>
    cases h
    obtain ⟨hopen, hinner⟩ := hpending group rfl
    rw [List.append_nil]
    show BreaksOff ([] ++ group.opening :: group.inner.reverse) _
    exact .unclosed rfl hopen hinner
  | case3 token rest hkind ih =>
    have hrest := ih h (by rintro g ⟨⟩; exact ⟨hkind, rfl⟩)
    simpa [OpenGroup.tokens] using hrest
  | case4 token rest hkind =>
    cases h
    show BreaksOff ([] ++ token :: rest) _
    exact .unopened rfl hkind
  | case5 token rest hopen hclose ih =>
    have hword := Kind.isParen_of_ne hopen hclose
    cases hr : splitFrom none rest with
    | ok later => simp [hr, bind, Except.bind, pure, Except.pure] at h
    | error e =>
      rw [hr] at h
      cases h
      have hrest : BreaksOff rest error := ih hr (by simp)
      show BreaksOff ([token] ++ rest) error
      exact hrest.append (splitGroups_word hword)
  | case6 group token rest hkind ih =>
    have hgroup := hpending group rfl
    have hrest := ih h (by
      rintro g ⟨⟩
      exact hgroup.push (by rw [depthAfter_open hkind]; rfl))
    simpa [OpenGroup.tokens] using hrest
  | case7 group token rest depth hdepth hkind ih =>
    have hgroup := hpending group rfl
    have hrest := ih h (by
      rintro g ⟨⟩
      exact hgroup.push (by rw [hdepth, depthAfter_close hkind]; rfl))
    simpa [OpenGroup.tokens] using hrest
  | case8 group token rest hdepth hkind hinner =>
    cases h
    obtain ⟨hopen, -⟩ := hpending group rfl
    have hshape : group.tokens = [group.opening] := by
      simpa [OpenGroup.tokens] using hinner
    show BreaksOff (group.tokens ++ token :: rest) _
    rw [hshape]
    show BreaksOff ([] ++ group.opening :: token :: rest) _
    exact .empty rfl hopen hkind
  | case9 group token rest hdepth hkind hinner ih =>
    obtain ⟨hopen, hdepthAfter⟩ := hpending group rfl
    rw [hdepth] at hdepthAfter
    have hfull : group.inner.reverse ≠ [] := by simpa using hinner
    -- The group is closed, and the rest of the span is at fault.
    cases hr : splitFrom none rest with
    | ok later => simp [hr, bind, Except.bind, pure, Except.pure] at h
    | error e =>
      rw [hr] at h
      cases h
      have hrest : BreaksOff rest error := ih hr (by simp)
      have hall := hrest.append (splitGroups_group hopen hkind hfull hdepthAfter)
      simpa [OpenGroup.tokens] using hall
  | case10 group token rest hopen hclose hclose' ih =>
    have hgroup := hpending group rfl
    have hne : token.kind ≠ .closeParen := by
      intro ht
      cases hd : group.depth with
      | zero => exact hclose' ht hd
      | succ depth => exact hclose depth ht hd
    have hword := Kind.isParen_of_ne hopen hne
    have hrest := ih h (by
      rintro g ⟨⟩
      exact hgroup.push (by rw [depthAfter_word hword]; rfl))
    simpa [OpenGroup.tokens] using hrest

/-- Where a span breaks off, its first fault is. -/
theorem BreaksOff.firstFault (h : BreaksOff span error) : FirstFault span error := by
  cases h with
  | @unopened done rest _ closing hdone hclose =>
    have hcounts := (balanced_iff.1 (balanced_of_splitGroups hdone)).total
    have hhere : Offence (closing :: rest) 0 _ := .unopened rfl hclose (isOutside_zero _)
    refine .offence ((offence_append hcounts).2 hhere) ?_
    intro earlier hearlier other
    exact not_offence_of_splitGroups hdone (by omega)
  | @empty done rest _ opening closing hdone hopen hclose =>
    have hcounts := (balanced_iff.1 (balanced_of_splitGroups hdone)).total
    have hhere : Offence (opening :: closing :: rest) 0 _ :=
      .empty rfl hopen rfl hclose (isOutside_zero _)
    refine .offence ((offence_append hcounts).2 hhere) ?_
    intro earlier hearlier other
    exact not_offence_of_splitGroups hdone (by omega)
  | @unclosed done inner _ opening depth hdone hopen hinner =>
    have hcounts := (balanced_iff.1 (balanced_of_splitGroups hdone)).total
    have hstart : IsOutside (done ++ opening :: inner) done.length :=
      (isOutside_append hcounts).2 (isOutside_zero _)
    refine .unclosed ?_ (by simp) hopen hstart ?_
    · intro place error
      by_cases hplace : place < done.length
      · exact not_offence_of_splitGroups hdone hplace
      · obtain ⟨later, rfl⟩ := Nat.exists_eq_add_of_le (Nat.le_of_not_lt hplace)
        rw [offence_append hcounts]
        exact not_offence_unclosed hopen hinner
    · intro later hlater
      obtain ⟨more, rfl⟩ := Nat.exists_eq_add_of_lt hlater
      rw [Nat.add_assoc, isOutside_append hcounts]
      exact not_isOutside_unclosed hopen hinner more

/-- A span that closes what it opens leaves no parenthesis open at its end, which is behind all its
    tokens. -/
theorem CountsBalance.exists_isOutside (h : CountsBalance span) (hat : span[place]? = some token) :
    ∃ later, place < later ∧ IsOutside span later := by
  obtain ⟨hplace, -⟩ := List.getElem?_eq_some_iff.1 hat
  refine ⟨span.length, hplace, ?_⟩
  unfold IsOutside
  rw [List.take_length]
  exact h.total

/-- A span that can be cut has no fault. -/
theorem not_firstFault_of_splitGroups (h : splitGroups span = .ok segments) :
    ¬FirstFault span error := by
  have hcounts := balanced_iff.1 (balanced_of_splitGroups h)
  intro hfault
  cases hfault with
  | offence hoffence => exact not_offence_of_splitGroups_self h _ _ hoffence
  | unclosed _ hat _ _ hnever =>
    obtain ⟨later, hlater, houtside⟩ := hcounts.exists_isOutside hat
    exact hnever later hlater houtside

theorem splitGroups_eq_error_iff : splitGroups span = .error error ↔ FirstFault span error := by
  constructor
  · intro h
    have hbreaks := breaksOff_of_splitFrom h (by simp)
    exact BreaksOff.firstFault hbreaks
  · intro hfault
    cases h : splitGroups span with
    | ok segments => exact absurd hfault (not_firstFault_of_splitGroups h)
    | error other =>
      have hbreaks : BreaksOff span other := breaksOff_of_splitFrom h (by simp)
      rw [hfault.unique hbreaks.firstFault]

/-- A span can be cut iff its counts balance and no pair of parentheses outside of all others is
    empty. -/
theorem exists_splitGroups_iff :
    (∃ segments, splitGroups span = .ok segments) ↔
      CountsBalance span ∧ ∀ place opening closing, span[place]? = some opening →
        span[place + 1]? = some closing → opening.kind = .openParen → closing.kind = .closeParen →
          ¬IsOutside span place := by
  constructor
  · intro ⟨segments, h⟩
    refine ⟨balanced_iff.1 (balanced_of_splitGroups h), ?_⟩
    intro place opening closing hat hbehind hopen hclose houtside
    exact not_offence_of_splitGroups_self h _ _ (.empty hat hopen hbehind hclose houtside)
  · intro ⟨hcounts, hempty⟩
    cases h : splitGroups span with
    | ok segments => exact ⟨segments, rfl⟩
    | error error =>
      exfalso
      cases splitGroups_eq_error_iff.1 h with
      | @offence place _ hoffence _ =>
        cases hoffence with
        | @unopened closing hat hclose houtside =>
          -- One token further, more are closed than opened.
          obtain ⟨hplace, hget⟩ := List.getElem?_eq_some_iff.1 hat
          have hne : closing.kind ≠ .openParen := by simp [hclose]
          have hmore := hcounts.enough (place + 1)
          rw [List.take_succ_eq_append_getElem hplace, hget, opened_append, closed_append,
            closed_cons_close hclose, opened_cons_of_ne hne, ← houtside] at hmore
          simp only [opened_nil, closed_nil] at hmore
          omega
        | empty hat hopen hbehind hclose houtside =>
          exact hempty _ _ _ hat hbehind hopen hclose houtside
      | unclosed _ hat _ _ hnever =>
        obtain ⟨later, hlater, houtside⟩ := hcounts.exists_isOutside hat
        exact hnever later hlater houtside

/-! ### Stretches -/

/-- A piece of a span by the places of its tokens: a single token, or what stands between two
    parentheses, from a place up to another one. -/
inductive Stretch where
  | token (place : Nat)
  | group (start stop : Nat)
  deriving DecidableEq, Repr

/-- The places of a stretch, with those of the parentheses around it. -/
def Stretch.places : Stretch → List Nat
  | .token place => [place]
  | .group start stop => List.range' (start - 1) (stop + 1 - (start - 1))

/-- The stretches of the tokens from a place on, where some parentheses are open and `opener` is the
    place of the first one of them.  There are none if the pass looks for a token outside the span. -/
def stretchesFrom? (span : List Token) (depth opener place : Nat) :
    List Token → Option (Except ParseError (List Stretch))
  | [] =>
    if depth ≠ 0 then
      span[opener]?.map fun opening => .error (.pinned opening .unclosedParen)
    else
      some (.ok [])
  | token :: rest =>
    match token.kind with
    | .openParen =>
      stretchesFrom? span (depth + 1) (if depth = 0 then place else opener) (place + 1) rest
    | .closeParen =>
      if depth = 0 then
        some (.error (.pinned token .unopenedParen))
      else if depth - 1 = 0 then
        if opener + 1 = place then
          span[opener]?.map fun opening => .error (.pinned opening .emptyParens)
        else
          (stretchesFrom? span (depth - 1) opener (place + 1) rest).map fun later =>
            later.map (.group (opener + 1) place :: ·)
      else
        stretchesFrom? span (depth - 1) opener (place + 1) rest
    | _ =>
      if depth = 0 then
        (stretchesFrom? span depth opener (place + 1) rest).map fun later =>
          later.map (.token place :: ·)
      else
        stretchesFrom? span depth opener (place + 1) rest

/-- The stretches of a span, in one pass over the places of its tokens. -/
def stretches? (span : List Token) : Option (Except ParseError (List Stretch)) :=
  stretchesFrom? span 0 0 0 span

/-- The stretches of some pieces that stand one behind another from a place on. -/
def stretchesOf : Nat → List Segment → List Stretch
  | _, [] => []
  | base, .token _ :: segments => .token base :: stretchesOf (base + 1) segments
  | base, .group _ inner _ :: segments =>
    .group (base + 1) (base + 1 + inner.length) :: stretchesOf (base + inner.length + 2) segments

theorem stretchesFrom?_word {opener : Nat} (h : token.kind.isParen = false) :
    stretchesFrom? span depth opener place (token :: rest) =
      if depth = 0 then
        (stretchesFrom? span depth opener (place + 1) rest).map fun later =>
          later.map (.token place :: ·)
      else stretchesFrom? span depth opener (place + 1) rest := by
  cases hkind : token.kind <;> simp_all [stretchesFrom?, Kind.isParen]

/-- The parenthesis that closes a group. -/
theorem splitFrom_close (group : OpenGroup) (hdepth : group.depth = 0)
    (h : token.kind = .closeParen) :
    splitFrom (some group) (token :: rest) =
      if group.inner.isEmpty then .error (.pinned group.opening .emptyParens)
      else (splitFrom none rest).map (.group group.opening group.inner.reverse token :: ·) := by
  simp only [splitFrom, h, hdepth]
  split
  · rfl
  · cases splitFrom none rest <;> rfl

/-- Every other token joins the group. -/
theorem splitFrom_join (group : OpenGroup) (h : depthAfter group.depth [token] = some after) :
    splitFrom (some group) (token :: rest) =
      splitFrom (some ⟨group.opening, token :: group.inner, after⟩) rest :=
  splitFrom_inside h

/-- The pass over the places does what the scan does, with and without a group that is being read. -/
theorem stretchesFrom?_eq (hrest : span.drop place = rest) :
    (∀ opener, stretchesFrom? span 0 opener place rest =
        some ((splitFrom none rest).map (stretchesOf place))) ∧
      ∀ opener (group : OpenGroup), span[opener]? = some group.opening →
        place = opener + 1 + group.inner.length →
        stretchesFrom? span (group.depth + 1) opener place rest =
          some ((splitFrom (some group) rest).map (stretchesOf opener)) := by
  induction rest generalizing place with
  | nil =>
    refine ⟨fun opener => rfl, fun opener group hopener hplace => ?_⟩
    simp [stretchesFrom?, hopener, splitFrom, Except.map]
  | cons token rest ih =>
    have hat : span[place]? = some token := by
      rw [← List.head?_drop, hrest]
      rfl
    have hbehind : span.drop (place + 1) = rest := by
      rw [← List.drop_drop, hrest]
      rfl
    obtain ⟨houter, hinner⟩ := ih hbehind
    refine ⟨fun opener => ?_, fun opener group hopener hplace => ?_⟩
    · -- No group is being read, and an opening parenthesis starts one at this place.
      rcases token.kind.paren_cases with ht | ht | ht
      · have hgroup := hinner place ⟨token, [], 0⟩ hat rfl
        simpa [stretchesFrom?, splitFrom, ht] using hgroup
      · simp [stretchesFrom?, splitFrom, ht, Except.map]
      · rw [stretchesFrom?_word ht, if_pos rfl, houter opener, splitFrom_word ht]
        cases splitFrom none rest <;> rfl
    · -- The token joins the group, or it is the parenthesis that closes it.
      have hjoin (after : Nat) (hafter : depthAfter group.depth [token] = some after) :
          stretchesFrom? span (after + 1) opener (place + 1) rest =
            some ((splitFrom (some group) (token :: rest)).map (stretchesOf opener)) := by
        rw [splitFrom_join group hafter]
        exact hinner opener ⟨group.opening, token :: group.inner, after⟩ hopener (by simp [hplace]; omega)
      rcases token.kind.paren_cases with ht | ht | ht
      · have hgroup := hjoin (group.depth + 1) (by rw [depthAfter_open ht]; rfl)
        simpa [stretchesFrom?, ht] using hgroup
      · cases hdepth : group.depth with
        | succ depth =>
          have hgroup := hjoin depth (by rw [hdepth, depthAfter_close ht]; rfl)
          simpa [stretchesFrom?, ht] using hgroup
        | zero =>
          rw [splitFrom_close group hdepth ht]
          by_cases hempty : group.inner = []
          · have hnext : opener + 1 = place := by simp [hplace, hempty]
            simp [stretchesFrom?, ht, hempty, hnext, hopener, Except.map]
          · have hnext : opener + 1 ≠ place := by
              have hlength := List.length_pos_iff.2 hempty
              omega
            have hstop : opener + 1 + group.inner.reverse.length = place := by
              rw [List.length_reverse]
              omega
            have hbase : opener + group.inner.reverse.length + 2 = place + 1 := by omega
            have hgroup (later : List Segment) :
                stretchesOf opener (.group group.opening group.inner.reverse token :: later) =
                  .group (opener + 1) place :: stretchesOf (place + 1) later := by
              rw [stretchesOf, hstop, hbase]
            have hlater := houter opener
            simp only [stretchesFrom?, ht, hnext, hlater, hempty, List.isEmpty_iff, if_false,
              Nat.zero_add, Nat.add_one_ne_zero, Option.map_some, if_true]
            cases splitFrom none rest with
            | error error => rfl
            | ok later => exact congrArg (fun found => some (Except.ok found)) (hgroup later).symm
      · have hgroup := hjoin group.depth (by rw [depthAfter_word ht]; rfl)
        rw [stretchesFrom?_word ht, if_neg (Nat.succ_ne_zero _)]
        exact hgroup

/-! ### Stretches of pieces -/

/-- A token at a place that is no parenthesis and outside of all parentheses. -/
def IsBare (span : List Token) (place : Nat) : Prop :=
  (∃ token, span[place]? = some token ∧ token.kind.isParen = false) ∧ IsOutside span place

/-- What stands between two parentheses, from a place up to another one: it is not empty, it closes what
    it opens, and the parentheses stand outside of all others. -/
structure IsGroup (span : List Token) (start stop : Nat) : Prop where
  before : ∃ opener opening, start = opener + 1 ∧ span[opener]? = some opening ∧
    opening.kind = .openParen ∧ IsOutside span opener
  behind : ∃ closing, span[stop]? = some closing ∧ closing.kind = .closeParen
  full : start < stop
  balanced : CountsBalance ((span.take stop).drop start)

theorem Segment.length_tokens_group (opening closing : Token) (inner : List Token) :
    (Segment.group opening inner closing).tokens.length = inner.length + 2 := by
  simp [Segment.tokens]

theorem base_le_of_mem_stretchesOf {stretch : Stretch} (h : stretch ∈ stretchesOf base segments) :
    ∀ p ∈ stretch.places, base ≤ p := by
  induction segments generalizing base with
  | nil => cases h
  | cons segment segments ih =>
    cases segment with
    | token token =>
      rcases List.mem_cons.1 h with rfl | h
      · simp [Stretch.places]
      · intro p hp
        have hle := ih h p hp
        omega
    | group opening inner closing =>
      rcases List.mem_cons.1 h with rfl | h
      · simp only [Stretch.places, List.mem_range'_1]
        intro p hp
        omega
      · intro p hp
        have hle := ih h p hp
        omega

/-- The stretches of some pieces go over the places one by one. -/
theorem flatMap_places_stretchesOf (base : Nat) (segments : List Segment) :
    (stretchesOf base segments).flatMap Stretch.places =
      List.range' base (segments.flatMap Segment.tokens).length := by
  induction segments generalizing base with
  | nil => rfl
  | cons segment segments ih =>
    cases segment with
    | token token =>
      rw [stretchesOf, List.flatMap_cons, ih, List.flatMap_cons, List.length_append]
      simp [Stretch.places, List.range'_succ, Nat.add_comm 1]
    | group opening inner closing =>
      have hplaces : (Stretch.group (base + 1) (base + 1 + inner.length)).places =
          List.range' base (inner.length + 2) := by
        have hcount : base + 1 + inner.length + 1 - base = inner.length + 2 := by omega
        simp [Stretch.places, hcount]
      rw [stretchesOf, List.flatMap_cons, ih, List.flatMap_cons, List.length_append,
        Segment.length_tokens_group, hplaces, Nat.add_assoc]
      exact List.range'_append_1

theorem isBare_append (h : opened left = closed left) :
    IsBare (left ++ right) (left.length + place) ↔ IsBare right place := by
  unfold IsBare
  rw [isOutside_append h, getElem?_behind]

theorem IsGroup.append {start stop : Nat} (h : opened left = closed left)
    (hgroup : IsGroup right start stop) :
    IsGroup (left ++ right) (left.length + start) (left.length + stop) := by
  obtain ⟨⟨opener, opening, rfl, hopener, hopen, houtside⟩, ⟨closing, hclosing, hclose⟩, hfull,
    hbalanced⟩ := hgroup
  refine ⟨⟨left.length + opener, opening, rfl, ?_, hopen, ?_⟩, ⟨closing, ?_, hclose⟩, by omega, ?_⟩
  · rw [getElem?_behind, hopener]
  · rw [isOutside_append h]
    exact houtside
  · rw [getElem?_behind, hclosing]
  · rw [List.take_length_add_append, List.drop_length_add_append]
    exact hbalanced

/-- The single tokens among the stretches are those that are outside and no parentheses. -/
theorem token_mem_stretchesOf_iff (hformed : ∀ s ∈ segments, s.WellFormed) (base place : Nat) :
    .token (base + place) ∈ stretchesOf base segments ↔
      IsBare (segments.flatMap Segment.tokens) place := by
  induction segments generalizing base place with
  | nil => simp [stretchesOf, IsBare]
  | cons segment segments ih =>
    obtain ⟨hsegment, hrest⟩ := List.forall_mem_cons.1 hformed
    have hcounts := hsegment.counts
    rw [List.flatMap_cons]
    cases segment with
    | token token =>
      cases place with
      | zero =>
        have hbare : IsBare (token :: segments.flatMap Segment.tokens) 0 :=
          ⟨⟨token, rfl, hsegment⟩, isOutside_zero _⟩
        exact ⟨fun _ => hbare, fun _ => List.mem_cons_self⟩
      | succ place =>
        have hplace : place + 1 = (Segment.token token).tokens.length + place := Nat.add_comm ..
        have hmove : base + (place + 1) = base + 1 + place := by omega
        have hne : base + 1 + place ≠ base := by omega
        rw [hplace, isBare_append hcounts, ← ih hrest (base + 1) place, ← hplace, hmove, stretchesOf,
          List.mem_cons]
        simp [hne]
    | group opening inner closing =>
      obtain ⟨hopen, hclose, hfull, hinner⟩ := hsegment
      by_cases hplace : place < inner.length + 2
      · -- The place is in the group, where nothing is outside but the opening parenthesis.
        have hnone : ¬IsBare ((Segment.group opening inner closing).tokens ++
            segments.flatMap Segment.tokens) place := by
          intro ⟨⟨token, hat, hword⟩, houtside⟩
          cases place with
          | zero =>
            cases hat
            exact (Kind.ne_of_isParen hword).1 hopen
          | succ place =>
            rw [Segment.tokens, List.append_assoc] at houtside
            exact not_isOutside_group hopen hinner (by omega) houtside
        have hother : .token (base + place) ∉
            stretchesOf base (.group opening inner closing :: segments) := by
          intro hmem
          rw [stretchesOf, List.mem_cons] at hmem
          rcases hmem with hmem | hmem
          · cases hmem
          · have hle := base_le_of_mem_stretchesOf hmem (base + place) (List.mem_singleton_self _)
            omega
        exact ⟨fun h => absurd h hother, fun h => absurd h hnone⟩
      · obtain ⟨later, rfl⟩ := Nat.exists_eq_add_of_le (Nat.le_of_not_lt hplace)
        have hmove : base + (inner.length + 2 + later) = base + inner.length + 2 + later := by omega
        have hbehind := ih hrest (base + inner.length + 2) later
        rw [← isBare_append hcounts, Segment.length_tokens_group, ← hmove] at hbehind
        rw [← hbehind, stretchesOf, List.mem_cons]
        simp

/-- The groups among the stretches are groups of the span. -/
theorem isGroup_of_mem_stretchesOf {start stop : Nat} (hformed : ∀ s ∈ segments, s.WellFormed)
    (h : .group start stop ∈ stretchesOf base segments) :
    ∃ start' stop', start = base + start' ∧ stop = base + stop' ∧
      IsGroup (segments.flatMap Segment.tokens) start' stop' := by
  induction segments generalizing base with
  | nil => cases h
  | cons segment segments ih =>
    obtain ⟨hsegment, hrest⟩ := List.forall_mem_cons.1 hformed
    have hcounts := hsegment.counts
    rw [List.flatMap_cons]
    cases segment with
    | token token =>
      rw [stretchesOf, List.mem_cons] at h
      rcases h with h | h
      · cases h
      · obtain ⟨start', stop', rfl, rfl, hgroup⟩ := ih hrest h
        exact ⟨_, _, Nat.add_assoc .., Nat.add_assoc .., hgroup.append hcounts⟩
    | group opening inner closing =>
      rw [stretchesOf, List.mem_cons] at h
      rcases h with h | h
      · cases h
        obtain ⟨hopen, hclose, hfull, hinner⟩ := hsegment
        refine ⟨1, 1 + inner.length, rfl, Nat.add_assoc .., ?_⟩
        refine ⟨⟨0, opening, rfl, rfl, hopen, isOutside_zero _⟩, ⟨closing, ?_, hclose⟩, ?_, ?_⟩
        · simp [Segment.tokens, Nat.add_comm 1]
        · have hlength := List.length_pos_iff.2 hfull
          omega
        · simpa [Segment.tokens, Nat.add_comm 1] using balanced_iff.1 hinner
      · obtain ⟨start', stop', rfl, rfl, hgroup⟩ := ih hrest h
        have hbehind := hgroup.append hcounts
        rw [Segment.length_tokens_group] at hbehind
        exact ⟨_, _, by omega, by omega, hbehind⟩

/-! ### Main result -/

/-- A pass over the places of a span never looks outside it, and gives what `splitGroups` gives.  A span
    can be cut iff its counts balance and no pair of parentheses outside of all others is empty.  Then the
    pieces spell the span, their stretches go over its places one by one, the single tokens are those
    that are outside and no parentheses, and every group is balanced and not empty.  Otherwise the error
    is the one of the first fault. -/
theorem splitGroups_exact (span : List Token) :
    stretches? span = some ((splitGroups span).map (stretchesOf 0)) ∧
      ((∃ segments, splitGroups span = .ok segments) ↔
        CountsBalance span ∧ ∀ place opening closing, span[place]? = some opening →
          span[place + 1]? = some closing → opening.kind = .openParen → closing.kind = .closeParen →
            ¬IsOutside span place) ∧
      (∀ segments, splitGroups span = .ok segments →
        segments.flatMap Segment.tokens = span ∧
        (stretchesOf 0 segments).flatMap Stretch.places = List.range span.length ∧
        (∀ place, .token place ∈ stretchesOf 0 segments ↔ IsBare span place) ∧
        ∀ start stop, .group start stop ∈ stretchesOf 0 segments → IsGroup span start stop) ∧
      (∀ error, splitGroups span = .error error ↔ FirstFault span error) ∧
      ∀ token, (ParseError.pinned token .unopenedParen).summary = "too many right parentheses" ∧
        (ParseError.pinned token .emptyParens).summary = "empty parentheses" ∧
        (ParseError.pinned token .unclosedParen).summary = "not all parentheses closed" := by
  refine ⟨?_, exists_splitGroups_iff, fun segments h => ?_, fun _ => splitGroups_eq_error_iff,
    fun _ => ⟨rfl, rfl, rfl⟩⟩
  · have hall : span.drop 0 = span := List.drop_zero
    exact (stretchesFrom?_eq hall).1 0
  · obtain ⟨hformed, rfl⟩ := splitGroups_eq_ok_iff.1 h
    refine ⟨rfl, ?_, fun place => ?_, fun start stop hmem => ?_⟩
    · rw [flatMap_places_stretchesOf, List.range_eq_range']
    · have hmem := token_mem_stretchesOf_iff hformed 0 place
      rwa [Nat.zero_add] at hmem
    · obtain ⟨start', stop', rfl, rfl, hgroup⟩ := isGroup_of_mem_stretchesOf hformed hmem
      rwa [Nat.zero_add, Nat.zero_add]

end CalcLang
