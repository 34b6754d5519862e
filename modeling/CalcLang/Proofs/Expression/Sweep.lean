import CalcLang.Proofs.Expression.Folding

/-! # Folding in place and in one sweep

    Folding a tier takes the leftmost operator again and again.  A loop does this in place, with an
    index that it sets back behind each fold, and a sweep does it without ever going back:

    * `FoldCursor.turn?`: one turn of the loop.  There is none where the loop would reach outside the
      row.
    * `FoldCursor.Stops`: the turns of the loop up to its end, counted.
    * `FoldCursor.IsClear`: no operator of the tier stands before the index.  This makes it harmless to
      look at a part of the row again.
    * `sweep`: a pass from left to right that keeps what it has passed on a stack.
    * `foldTier_exact`: the loop stops in a bounded number of turns with what folding gives, and that
      is what the sweep gives. -/

namespace CalcLang

variable {α : Type} {debug : Bool} {tier : List Operator}
  {siblings before after stack passed rest ahead : List Node} {left right node operator : Node}

/-! ### Rows -/

/-- The entry at a place of a row, and the row without it.  There is none outside the row. -/
def removeAt? (index : Nat) (row : List α) : Option (α × List α) :=
  row[index]?.map fun entry => (entry, row.eraseIdx index)

/-- A row with an entry put in at a place, which must be inside the row or at its end. -/
def insertAt? (index : Nat) (entry : α) (row : List α) : Option (List α) :=
  if index ≤ row.length then some (row.insertIdx index entry) else none

theorem getElem?_at (before : List α) (entry : α) (after : List α) :
    (before ++ entry :: after)[before.length]? = some entry := by
  simp

theorem removeAt?_at (before : List α) (entry : α) (after : List α) :
    removeAt? before.length (before ++ entry :: after) = some (entry, before ++ after) := by
  simp [removeAt?, List.eraseIdx_append_of_length_le]

theorem insertAt?_at (before : List α) (entry : α) (after : List α) :
    insertAt? before.length entry (before ++ after) = some (before ++ entry :: after) := by
  have hinside : before.length ≤ (before ++ after).length := by simp
  have hinsert : (before ++ after).insertIdx before.length entry = before ++ entry :: after := by
    clear hinside
    induction before with
    | nil => rfl
    | cons first before ih => simp [List.insertIdx_succ_cons, ih]
  rw [insertAt?, if_pos hinside, hinsert]

/-! ### The loop -/

/-- A row of siblings and the place in it that is looked at next. -/
structure FoldCursor where
  /-- The place, counted from zero. -/
  index : Nat
  /-- The row. -/
  siblings : List Node

/-- What a turn of the loop comes to. -/
inductive FoldTurn where
  /-- The loop ends with a row. -/
  | done (siblings : List Node)
  /-- The loop ends with an error. -/
  | failed (error : ParseError)
  /-- The loop goes on, and something may be put on record before. -/
  | onward (action : Logged ParseError Unit) (next : FoldCursor)

namespace FoldCursor

/-- One turn of the loop: the node at the index is passed, or it is a bare operator of the tier and is
    folded with its neighbours.  Behind a fold the index is set back by three.  There is no turn that
    reaches outside the row. -/
def turn? (debug : Bool) (tier : List Operator) (cursor : FoldCursor) : Option FoldTurn :=
  let ⟨index, siblings⟩ := cursor
  if index < siblings.length then do
    let node ← siblings[index]?
    if !isBareOperator tier node then
      some (.onward (pure ()) ⟨index + 1, siblings⟩)
    else if index = 0 ∨ siblings.length ≤ index + 1 then
      some (.failed (.pinned node.token (.missingOperand node.kind)))
    else do
      let left ← siblings[index - 1]?
      let right ← siblings[index + 1]?
      if !isOperand left then
        some (.failed (.pinned left.token (.invalidOperand node.kind)))
      else if !isOperand right then
        some (.failed (.pinned right.token (.invalidOperand node.kind)))
      else do
        let (right, siblings) ← removeAt? (index + 1) siblings
        let (operator, siblings) ← removeAt? index siblings
        let (left, siblings) ← removeAt? (index - 1) siblings
        let folded := Node.branch operator.token [left, right]
        let siblings ← insertAt? (index - 1) folded siblings
        let action := Logged.noteIf debug .debug
          ("fold " ++ operator.kind.name ++ " on line " ++ toString operator.line)
        some (.onward action ⟨index - 3, siblings⟩)
  else
    some (.done siblings)

/-- The loop stops after a number of turns, none of which reaches outside the row. -/
inductive Stops (debug : Bool) (tier : List Operator) :
    FoldCursor → Nat → Logged ParseError (List Node) → Prop
  | done {cursor : FoldCursor} {siblings : List Node}
      (h : cursor.turn? debug tier = some (.done siblings)) : Stops debug tier cursor 1 (pure siblings)
  | failed {cursor : FoldCursor} {error : ParseError}
      (h : cursor.turn? debug tier = some (.failed error)) : Stops debug tier cursor 1 (.fail error)
  | onward {cursor next : FoldCursor} {action : Logged ParseError Unit} {turns : Nat}
      {outcome : Logged ParseError (List Node)}
      (h : cursor.turn? debug tier = some (.onward action next))
      (hrest : Stops debug tier next turns outcome) :
      Stops debug tier cursor (turns + 1) (action >>= fun _ => outcome)

/-- The loop has a single outcome. -/
theorem Stops.unique {cursor : FoldCursor} {turns turns' : Nat}
    {outcome outcome' : Logged ParseError (List Node)} (h : Stops debug tier cursor turns outcome)
    (h' : Stops debug tier cursor turns' outcome') : turns = turns' ∧ outcome = outcome' := by
  induction h generalizing turns' outcome' with
  | done h => cases h' <;> simp_all
  | failed h => cases h' <;> simp_all
  | onward h hrest ih =>
    cases h' with
    | done h' => simp_all
    | failed h' => simp_all
    | onward h' hrest' =>
      obtain ⟨rfl, rfl⟩ : _ ∧ _ := by simpa [h] using h'
      obtain ⟨rfl, rfl⟩ := ih hrest'
      exact ⟨rfl, rfl⟩

/-! ### One turn -/

theorem turn?_end (siblings : List Node) :
    turn? debug tier ⟨siblings.length, siblings⟩ = some (.done siblings) := by
  simp [turn?]

theorem turn?_passed (before after : List Node) (h : isBareOperator tier node = false) :
    turn? debug tier ⟨before.length, before ++ node :: after⟩ =
      some (.onward (pure ()) ⟨(before ++ [node]).length, before ++ [node] ++ after⟩) := by
  simp [turn?, h]

theorem turn?_missing (h : isBareOperator tier node = true) (hside : before = [] ∨ after = []) :
    turn? debug tier ⟨before.length, before ++ node :: after⟩ =
      some (.failed (.pinned node.token (.missingOperand node.kind))) := by
  have hguard : before.length = 0 ∨ (before ++ node :: after).length ≤ before.length + 1 := by
    rcases hside with rfl | rfl <;> simp
  have hinside : before.length < (before ++ node :: after).length := by simp
  simp only [turn?, hinside, if_true, getElem?_at, Option.bind_eq_bind, Option.bind_some, h, hguard,
    Bool.not_true, Bool.false_eq_true, if_false]

/-- Between two neighbours the operator is folded, unless one of them is no operand. -/
theorem turn?_between (debug : Bool) (passed rest : List Node) (left right : Node)
    (h : isBareOperator tier node = true) :
    turn? debug tier ⟨passed.length + 1, passed ++ left :: node :: right :: rest⟩ =
      if !isOperand left then some (.failed (.pinned left.token (.invalidOperand node.kind)))
      else if !isOperand right then some (.failed (.pinned right.token (.invalidOperand node.kind)))
      else some (.onward
        (.noteIf debug .debug ("fold " ++ node.kind.name ++ " on line " ++ toString node.line))
        ⟨passed.length - 2, passed ++ .branch node.token [left, right] :: rest⟩) := by
  have hinside : passed.length + 1 < (passed ++ left :: node :: right :: rest).length := by
    simp
  have hguard : ¬(passed.length + 1 = 0 ∨
      (passed ++ left :: node :: right :: rest).length ≤ passed.length + 1 + 1) := by
    simp only [List.length_append, List.length_cons]
    omega
  have hnode : (passed ++ left :: node :: right :: rest)[passed.length + 1]? = some node := by
    simp
  have hleft : (passed ++ left :: node :: right :: rest)[passed.length + 1 - 1]? = some left :=
    getElem?_at passed left _
  have hright : (passed ++ left :: node :: right :: rest)[passed.length + 1 + 1]? = some right := by
    rw [List.getElem?_append_right (by omega), Nat.add_assoc, Nat.add_sub_cancel_left]
    rfl
  -- The three nodes leave the row from the right, so no removal moves a place that is still needed.
  have htakeRight : removeAt? (passed.length + 1 + 1) (passed ++ left :: node :: right :: rest) =
      some (right, passed ++ left :: node :: rest) := by
    simpa using removeAt?_at (passed ++ [left, node]) right rest
  have htakeNode : removeAt? (passed.length + 1) (passed ++ left :: node :: rest) =
      some (node, passed ++ left :: rest) := by
    simpa using removeAt?_at (passed ++ [left]) node rest
  have htakeLeft : removeAt? (passed.length + 1 - 1) (passed ++ left :: rest) =
      some (left, passed ++ rest) :=
    removeAt?_at passed left rest
  have hput : insertAt? (passed.length + 1 - 1) (.branch node.token [left, right]) (passed ++ rest) =
      some (passed ++ .branch node.token [left, right] :: rest) :=
    insertAt?_at passed _ rest
  simp only [turn?, hinside, if_true, hnode, Option.bind_eq_bind, Option.bind_some, h, Bool.not_true,
    Bool.false_eq_true, if_false, hguard, hleft, hright, htakeRight, htakeNode, htakeLeft, hput]
  rfl

/-! ### A whole run -/

/-- No operator of the tier stands before the index. -/
structure IsClear (tier : List Operator) (cursor : FoldCursor) : Prop where
  inside : cursor.index ≤ cursor.siblings.length
  passed : ∀ n ∈ cursor.siblings.take cursor.index, isBareOperator tier n = false

/-- The places and the entries that are still ahead.  A fold may set the index back, but then there are
    fewer entries. -/
def room (cursor : FoldCursor) : Nat := 2 * cursor.siblings.length - cursor.index

end FoldCursor

/-! ### Folding at the leftmost operator -/

theorem foldTier_eq_pure (h : ∀ n ∈ siblings, isBareOperator tier n = false) :
    foldTier debug tier siblings = pure siblings := by
  rw [foldTier_eq, firstOperator?_eq_none h]

theorem foldTier_at (hbefore : ∀ n ∈ before, isBareOperator tier n = false)
    (h : isBareOperator tier node = true) :
    foldTier debug tier (before ++ node :: after) =
      foldAt debug before node after >>= foldTier debug tier := by
  rw [foldTier_eq, firstOperator?_append hbefore h]

theorem foldAt_missing (hside : before = [] ∨ after = []) :
    foldAt debug before node after = .fail (.pinned node.token (.missingOperand node.kind)) := by
  rcases hside with rfl | rfl
  · rfl
  · cases hlast : before.getLast? <;> simp [foldAt, hlast]

theorem foldAt_between (passed rest : List Node) (left right : Node) :
    foldAt debug (passed ++ [left]) node (right :: rest) =
      if !isOperand left then .fail (.pinned left.token (.invalidOperand node.kind))
      else if !isOperand right then .fail (.pinned right.token (.invalidOperand node.kind))
      else
        Logged.noteIf debug .debug ("fold " ++ node.kind.name ++ " on line " ++ toString node.line) >>=
          fun _ => pure (passed ++ .branch node.token [left, right] :: rest) := by
  simp [foldAt]

namespace FoldCursor

/-- The loop at the leftmost operator, if it stops behind a fold. -/
theorem stops_at_operator (hclear : ∀ n ∈ before, isBareOperator tier n = false)
    (hbare : isBareOperator tier node = true)
    (hstops : ∀ next : FoldCursor, next.IsClear tier →
      next.room < FoldCursor.room ⟨before.length, before ++ node :: after⟩ →
      ∃ turns, turns ≤ next.room + 1 ∧ Stops debug tier next turns (foldTier debug tier next.siblings)) :
    ∃ turns, turns ≤ FoldCursor.room ⟨before.length, before ++ node :: after⟩ + 1 ∧
      Stops debug tier ⟨before.length, before ++ node :: after⟩ turns
        (foldTier debug tier (before ++ node :: after)) := by
  rw [foldTier_at hclear hbare]
  by_cases hside : before = [] ∨ after = []
  · rw [foldAt_missing hside]
    exact ⟨1, by omega, .failed (turn?_missing hbare hside)⟩
  · obtain ⟨hleft, hright⟩ := not_or.1 hside
    obtain ⟨passed, left, rfl⟩ : ∃ passed left, before = passed ++ [left] :=
      ⟨_, _, (List.dropLast_concat_getLast hleft).symm⟩
    obtain ⟨right, rest, rfl⟩ := List.exists_cons_of_ne_nil hright
    have hturn := turn?_between debug passed rest left right hbare
    rw [foldAt_between]
    simp only [List.length_append, List.length_singleton, List.append_assoc, List.singleton_append]
    by_cases hoperand : isOperand left = true
    · by_cases hoperand' : isOperand right = true
      · -- What has been passed is still clear of operators, and the fold left two nodes less.
        simp only [hoperand, hoperand', Bool.not_true, Bool.false_eq_true, if_false] at hturn ⊢
        have hnext : IsClear tier
            ⟨passed.length - 2, passed ++ .branch node.token [left, right] :: rest⟩ := by
          refine ⟨by simp; omega, ?_⟩
          show ∀ n ∈ (passed ++ _).take (passed.length - 2), _
          rw [List.take_append_of_le_length (by omega)]
          intro n hn
          exact hclear n (List.mem_append_left _ (List.mem_of_mem_take hn))
        obtain ⟨turns, hturns, hrest⟩ := hstops _ hnext (by simp [FoldCursor.room]; omega)
        refine ⟨turns + 1, ?_, ?_⟩
        · simp only [FoldCursor.room, List.length_append, List.length_cons] at hturns ⊢
          omega
        · have honward := Stops.onward hturn hrest
          simpa using honward
      · simp only [hoperand, hoperand', Bool.not_true, Bool.not_false, Bool.false_eq_true, if_false,
          if_true] at hturn ⊢
        exact ⟨1, by omega, .failed hturn⟩
    · simp only [hoperand, Bool.not_false, if_true] at hturn ⊢
      exact ⟨1, by omega, .failed hturn⟩

/-- A loop that has passed no operator of the tier stops with what folding gives. -/
theorem IsClear.stops {cursor : FoldCursor} (debug : Bool) (h : cursor.IsClear tier) :
    ∃ turns, turns ≤ cursor.room + 1 ∧
      Stops debug tier cursor turns (foldTier debug tier cursor.siblings) := by
  -- Every turn leaves less room, also the one that sets the index back.
  generalize hroom : cursor.room = room
  induction room using Nat.strongRecOn generalizing cursor with
  | ind room ih =>
    obtain ⟨index, siblings⟩ := cursor
    obtain ⟨hinside, hclear⟩ := h
    simp only at hinside hclear
    simp only [FoldCursor.room] at hroom
    by_cases hend : index = siblings.length
    · subst hend
      rw [List.take_length] at hclear
      rw [foldTier_eq_pure hclear]
      exact ⟨1, by omega, .done (turn?_end siblings)⟩
    · obtain ⟨before, node, after, rfl, rfl⟩ :
          ∃ before node after, siblings = before ++ node :: after ∧ index = before.length := by
        have hlt : index < siblings.length := by omega
        refine ⟨siblings.take index, siblings[index], siblings.drop (index + 1), ?_, ?_⟩
        · rw [List.getElem_cons_drop, List.take_append_drop]
        · simp [Nat.min_eq_left hinside]
      rw [List.take_left] at hclear
      by_cases hbare : isBareOperator tier node = true
      · have hroom : FoldCursor.room ⟨before.length, before ++ node :: after⟩ = room := hroom
        rw [← hroom] at ih ⊢
        exact stops_at_operator hclear hbare fun next hnext hless => ih _ hless hnext rfl
      · -- The node is passed, and there is one place less ahead.
        have hword : isBareOperator tier node = false := by simpa using hbare
        have hnext : IsClear tier ⟨(before ++ [node]).length, before ++ [node] ++ after⟩ := by
          refine ⟨by simp, ?_⟩
          rw [List.take_left]
          exact List.forall_mem_append.2 ⟨hclear, List.forall_mem_singleton.2 hword⟩
        have hless : FoldCursor.room ⟨(before ++ [node]).length, before ++ [node] ++ after⟩ < room := by
          simp only [FoldCursor.room, List.length_append, List.length_cons, List.length_nil] at hroom ⊢
          omega
        obtain ⟨turns, hturns, hstops⟩ := ih _ hless hnext rfl
        refine ⟨turns + 1, by omega, ?_⟩
        have honward := Stops.onward (turn?_passed before after hword) hstops
        simpa using honward

end FoldCursor

/-! ### The sweep -/

/-- One pass over the nodes ahead, from left to right.  What has been passed is on a stack, last node
    first: an operator of the tier takes its left operand from the top of the stack and its right operand
    from ahead, and leaves its node on the stack. -/
def sweep (tier : List Operator) : List Node → List Node → Except ParseError (List Node)
  | stack, [] => .ok stack.reverse
  | stack, node :: ahead =>
    if isBareOperator tier node then
      match stack, ahead with
      | left :: stack, right :: ahead =>
        if !isOperand left then .error (.pinned left.token (.invalidOperand node.kind))
        else if !isOperand right then .error (.pinned right.token (.invalidOperand node.kind))
        else sweep tier (.branch node.token [left, right] :: stack) ahead
      | _, _ => .error (.pinned node.token (.missingOperand node.kind))
    else sweep tier (node :: stack) ahead

/-- What is wrong where the sweep meets an operator of the tier: there is nothing on one side of it, or
    the node on its left is no operand, or else the one on its right is not. -/
inductive SweepFault (operator : Node) : List Node → List Node → ParseError → Prop
  | missing {stack ahead : List Node} (h : stack = [] ∨ ahead = []) :
      SweepFault operator stack ahead (.pinned operator.token (.missingOperand operator.kind))
  | left {left right : Node} {stack ahead : List Node} (h : isOperand left = false) :
      SweepFault operator (left :: stack) (right :: ahead)
        (.pinned left.token (.invalidOperand operator.kind))
  | right {left right : Node} {stack ahead : List Node} (hleft : isOperand left = true)
      (h : isOperand right = false) :
      SweepFault operator (left :: stack) (right :: ahead)
        (.pinned right.token (.invalidOperand operator.kind))

theorem sweep_passed (stack ahead : List Node) (h : isBareOperator tier node = false) :
    sweep tier stack (node :: ahead) = sweep tier (node :: stack) ahead := by
  conv => lhs; unfold sweep
  simp [h]

theorem sweep_folded (stack ahead : List Node) (h : isBareOperator tier node = true)
    (hleft : isOperand left = true) (hright : isOperand right = true) :
    sweep tier (left :: stack) (node :: right :: ahead) =
      sweep tier (.branch node.token [left, right] :: stack) ahead := by
  simp [sweep, h, hleft, hright]

theorem sweep_fault {error : ParseError} (h : isBareOperator tier node = true)
    (hfault : SweepFault node stack ahead error) : sweep tier stack (node :: ahead) = .error error := by
  cases hfault with
  | missing hside =>
    rcases hside with rfl | rfl
    · simp [sweep, h]
    · cases stack <;> simp [sweep, h]
  | left hleft => simp [sweep, h, hleft]
  | right hleft hright => simp [sweep, h, hleft, hright]

/-- At an operator of the tier there is a fault, or it stands between two operands. -/
theorem sweepFault_or_between (stack ahead : List Node) (operator : Node) :
    (∃ error, SweepFault operator stack ahead error) ∨
      ∃ left below right rest, stack = left :: below ∧ ahead = right :: rest ∧
        isOperand left = true ∧ isOperand right = true := by
  cases stack with
  | nil => exact .inl ⟨_, .missing (.inl rfl)⟩
  | cons left below =>
    cases ahead with
    | nil => exact .inl ⟨_, .missing (.inr rfl)⟩
    | cons right rest =>
      by_cases hleft : isOperand left = true
      · by_cases hright : isOperand right = true
        · exact .inr ⟨left, below, right, rest, rfl, rfl, hleft, hright⟩
        · exact .inl ⟨_, .right hleft (by simpa using hright)⟩
      · exact .inl ⟨_, .left (by simpa using hleft)⟩

/-- The ways a sweep goes on. -/
theorem sweepInduction (tier : List Operator) {motive : List Node → List Node → Prop}
    (done : ∀ stack, motive stack [])
    (passed : ∀ stack node ahead, isBareOperator tier node = false → motive (node :: stack) ahead →
      motive stack (node :: ahead))
    (folded : ∀ left stack node right ahead, isBareOperator tier node = true →
      isOperand left = true → isOperand right = true →
      motive (.branch node.token [left, right] :: stack) ahead →
      motive (left :: stack) (node :: right :: ahead))
    (fault : ∀ stack node ahead error, isBareOperator tier node = true →
      SweepFault node stack ahead error → motive stack (node :: ahead))
    (stack ahead : List Node) : motive stack ahead := by
  -- A fold takes two nodes from ahead at once, so the induction is on how many there are.
  generalize hlength : ahead.length = length
  induction length using Nat.strongRecOn generalizing stack ahead with
  | ind length ih =>
    cases ahead with
    | nil => exact done stack
    | cons node ahead =>
      rw [List.length_cons] at hlength
      by_cases hbare : isBareOperator tier node = true
      · rcases sweepFault_or_between stack ahead node with ⟨error, hfault⟩ |
          ⟨left, below, right, rest, rfl, rfl, hleft, hright⟩
        · exact fault stack node ahead error hbare hfault
        · rw [List.length_cons] at hlength
          exact folded left below node right rest hbare hleft hright (ih _ (by omega) _ rest rfl)
      · exact passed stack node ahead (by simpa using hbare) (ih _ (by omega) _ ahead rfl)

/-- A sweep over a row goes on with what it has kept of the first part. -/
theorem sweep_append (h : sweep tier stack before = .ok passed) (after : List Node) :
    sweep tier stack (before ++ after) = sweep tier passed.reverse after := by
  induction stack, before using sweepInduction tier with
  | done stack =>
    cases h
    simp
  | passed stack node before hword ih =>
    rw [sweep_passed _ _ hword] at h
    rw [List.cons_append, sweep_passed _ _ hword]
    exact ih h
  | folded left stack node right before hbare hleft hright ih =>
    rw [sweep_folded _ _ hbare hleft hright] at h
    rw [List.cons_append, List.cons_append, sweep_folded _ _ hbare hleft hright]
    exact ih h
  | fault stack node before error hbare hfault =>
    rw [sweep_fault hbare hfault] at h
    cases h

/-- A sweep fails at the first operator of the tier that it meets a fault at. -/
theorem sweep_eq_error_iff {error : ParseError} :
    sweep tier stack ahead = .error error ↔
      ∃ before node rest kept, ahead = before ++ node :: rest ∧
        sweep tier stack before = .ok kept.reverse ∧ isBareOperator tier node = true ∧
        SweepFault node kept rest error := by
  constructor
  · intro h
    induction stack, ahead using sweepInduction tier with
    | done stack => cases h
    | passed stack node ahead hword ih =>
      rw [sweep_passed _ _ hword] at h
      obtain ⟨before, operator, rest, kept, rfl, hkept, hfault⟩ := ih h
      refine ⟨node :: before, operator, rest, kept, rfl, ?_, hfault⟩
      rw [sweep_passed _ _ hword, hkept]
    | folded left stack node right ahead hbare hleft hright ih =>
      rw [sweep_folded _ _ hbare hleft hright] at h
      obtain ⟨before, operator, rest, kept, rfl, hkept, hfault⟩ := ih h
      refine ⟨node :: right :: before, operator, rest, kept, rfl, ?_, hfault⟩
      rw [sweep_folded _ _ hbare hleft hright, hkept]
    | fault stack node ahead error' hbare hfault =>
      rw [sweep_fault hbare hfault] at h
      cases h
      exact ⟨[], node, ahead, stack, rfl, rfl, hbare, hfault⟩
  · intro ⟨before, node, rest, kept, hahead, hkept, hbare, hfault⟩
    rw [hahead, sweep_append hkept, List.reverse_reverse]
    exact sweep_fault hbare hfault

/-- A sweep leaves no operator of the tier. -/
theorem sweep_clear (hstack : ∀ n ∈ stack, isBareOperator tier n = false)
    (h : sweep tier stack ahead = .ok passed) : ∀ n ∈ passed, isBareOperator tier n = false := by
  induction stack, ahead using sweepInduction tier with
  | done stack =>
    cases h
    intro n hn
    exact hstack n (List.mem_reverse.1 hn)
  | passed stack node ahead hword ih =>
    rw [sweep_passed _ _ hword] at h
    exact ih (List.forall_mem_cons.2 ⟨hword, hstack⟩) h
  | folded left stack node right ahead hbare hleft hright ih =>
    rw [sweep_folded _ _ hbare hleft hright] at h
    have hfolded : isBareOperator tier (.branch node.token [left, right]) = false := rfl
    exact ih (List.forall_mem_cons.2 ⟨hfolded, (List.forall_mem_cons.1 hstack).2⟩) h
  | fault stack node ahead error hbare hfault =>
    rw [sweep_fault hbare hfault] at h
    cases h

/-! ### Folding and the sweep -/

theorem foldAt_fault {error : ParseError} (h : SweepFault node stack ahead error) :
    foldAt debug stack.reverse node ahead = .fail error := by
  cases h with
  | missing hside => exact foldAt_missing (by simpa using hside)
  | left hleft => simp [foldAt_between, hleft]
  | right hleft hright => simp [foldAt_between, hleft, hright]

/-- The stack of the sweep is the part of the row before the leftmost operator of the tier. -/
theorem result_foldTier_eq_sweep (debug : Bool)
    (hstack : ∀ n ∈ stack, isBareOperator tier n = false) :
    (foldTier debug tier (stack.reverse ++ ahead)).result = sweep tier stack ahead := by
  have hbefore {stack : List Node} (h : ∀ n ∈ stack, isBareOperator tier n = false) :
      ∀ n ∈ stack.reverse, isBareOperator tier n = false :=
    fun n hn => h n (List.mem_reverse.1 hn)
  -- Folding starts again from the left each time, but what is on the stack holds no operator of the
  -- tier, so the leftmost one is always the next that the sweep meets.
  induction stack, ahead using sweepInduction tier with
  | done stack =>
    rw [List.append_nil, foldTier_eq_pure (hbefore hstack)]
    rfl
  | passed stack node ahead hword ih =>
    rw [sweep_passed _ _ hword, ← ih (List.forall_mem_cons.2 ⟨hword, hstack⟩), List.reverse_cons,
      List.append_assoc]
    rfl
  | folded left stack node right ahead hbare hleft hright ih =>
    have hrest := (List.forall_mem_cons.1 hstack).2
    have hfolded : isBareOperator tier (.branch node.token [left, right]) = false := rfl
    rw [sweep_folded _ _ hbare hleft hright, ← ih (List.forall_mem_cons.2 ⟨hfolded, hrest⟩),
      foldTier_at (hbefore hstack) hbare, List.reverse_cons, foldAt_between]
    simp [hleft, hright, Except.bind]
  | fault stack node ahead error hbare hfault =>
    rw [sweep_fault hbare hfault, foldTier_at (hbefore hstack) hbare, foldAt_fault hfault]
    rfl

/-! ### Main result -/

/-- The loop that folds a tier in place stops, in at most `2 n + 1` turns for a row of `n` siblings and
    without reaching outside the row, and its outcome is that of `foldTier`.  The outcome is the one of a
    single sweep.  It is an error iff the sweep meets an operator of the tier with a fault beside it, and
    then that of the first one; and else no operator of the tier is left.  The errors read as a missing
    and as an invalid operand. -/
theorem foldTier_exact (debug : Bool) (tier : List Operator) (siblings : List Node) :
    (∃ turns, turns ≤ 2 * siblings.length + 1 ∧ ∀ turns' outcome,
        FoldCursor.Stops debug tier ⟨0, siblings⟩ turns' outcome ↔
          turns' = turns ∧ outcome = foldTier debug tier siblings) ∧
      (foldTier debug tier siblings).result = sweep tier [] siblings ∧
      (∀ error, (foldTier debug tier siblings).result = .error error ↔
        ∃ before node ahead stack, siblings = before ++ node :: ahead ∧
          sweep tier [] before = .ok stack.reverse ∧ isBareOperator tier node = true ∧
          SweepFault node stack ahead error) ∧
      (∀ folded, (foldTier debug tier siblings).result = .ok folded →
        ∀ node ∈ folded, isBareOperator tier node = false) ∧
      ∀ token kind,
        (ParseError.pinned token (.missingOperand kind)).summary = "missing operand for " ++ kind.name ∧
        (ParseError.pinned token (.invalidOperand kind)).summary =
          "invalid operand for " ++ kind.name := by
  have hnone : ∀ n ∈ ([] : List Node), isBareOperator tier n = false := by simp
  have hsweep : (foldTier debug tier siblings).result = sweep tier [] siblings :=
    result_foldTier_eq_sweep debug hnone
  refine ⟨?_, hsweep, fun error => ?_, fun folded h => ?_, fun _ _ => ⟨rfl, rfl⟩⟩
  · have hclear : FoldCursor.IsClear tier ⟨0, siblings⟩ := ⟨Nat.zero_le _, by simp⟩
    obtain ⟨turns, hturns, hstops⟩ := hclear.stops debug
    refine ⟨turns, hturns, fun turns' outcome => ?_⟩
    constructor
    · intro h
      exact h.unique hstops
    · rintro ⟨rfl, rfl⟩
      exact hstops
  · rw [hsweep]
    exact sweep_eq_error_iff
  · rw [hsweep] at h
    exact sweep_clear (by simp) h

end CalcLang
