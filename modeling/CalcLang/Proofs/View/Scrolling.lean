import CalcLang.View.Viewer
import Mathlib

/-! # Scrolling as counting

    Between two draws, the offset of a pane may lie far beyond its rows.  What is drawn is all the
    same what two counters say that never leave their range:

    * `Counters`: a counter for each pane, whose type holds its limit, and the pane with the focus.
    * `Counters.handle`: keys move the counter of the pane with the focus, or pass the focus on.
    * `Viewer.Follows`: the offsets of the viewer are those of the counters.
    * `Viewer.Follows.next`: an event and a draw keep that.
    * `Viewer.scrolling`: they are so after every draw of a run at a fixed height.  At heights that
      change, the offsets are in range. -/

namespace CalcLang

/-! ### Counters -/

/-- What a key asks of the pane that has the focus. -/
inductive Move where
  /-- To go down by some rows, or up if there are fewer than none. -/
  | down (rows : Int)
  | toTop
  | toBottom

/-- A count that stops at a limit. -/
def countTo (limit count : Nat) : Fin (limit + 1) :=
  ⟨min count limit, Nat.lt_succ_of_le (Nat.min_le_right count limit)⟩

/-- The counter after a move.  It stops at zero and at its limit. -/
def Move.apply {limit : Nat} (move : Move) (count : Fin (limit + 1)) : Fin (limit + 1) :=
  match move with
  | down rows => countTo limit (count + rows).toNat
  | toTop => 0
  | toBottom => Fin.last limit

/-- The offset that a move asks for, which may be beyond all rows. -/
def Move.asked (move : Move) (offset : Nat) : Nat :=
  match move with
  | down (.ofNat rows) => min (offset + rows) maxOffset
  | down (.negSucc rows) => offset - (rows + 1)
  | toTop => 0
  | toBottom => maxOffset

/-- What is asked for is the counter after the move, once it is brought into range. -/
theorem Move.min_asked {limit : Nat} (move : Move) (count : Fin (limit + 1))
    (hlimit : limit ≤ maxOffset) : min (move.asked count) limit = move.apply count := by
  cases move with
  | down rows =>
    cases rows with
    | ofNat rows =>
      show min (min (count.val + rows) maxOffset) limit = min (count.val + (rows : Int)).toNat limit
      omega
    | negSucc rows =>
      show min (count.val - (rows + 1)) limit = min (count.val + Int.negSucc rows).toNat limit
      omega
  | toTop => exact Nat.zero_min limit
  | toBottom => exact Nat.min_eq_right hlimit

/-- The keys that scroll. -/
def Key.move? : Key → Option Move
  | up => some (.down (-1))
  | down => some (.down 1)
  | pageUp => some (.down (-10))
  | pageDown => some (.down 10)
  | home => some .toTop
  | last => some .toBottom
  | _ => none

/-- The keys that pass the focus on. -/
def Key.passesFocus : Key → Bool
  | tab => true
  | backTab => true
  | _ => false

/-- The events that close the viewer. -/
def Event.quits : Event → Bool
  | press (.char c) => c == 'q' || c == 'Q'
  | press .escape => true
  | _ => false

/-- A counter for each pane, from zero to a limit, and the pane that has the focus. -/
structure Counters (limit : Pane → Nat) where
  focus : Pane
  count (pane : Pane) : Fin (limit pane + 1)

namespace Counters

variable {limit : Pane → Nat}

/-- A move of the counter of the pane that has the focus. -/
def move (move : Move) (counters : Counters limit) : Counters limit :=
  { counters with
    count := Function.update counters.count counters.focus
      (move.apply (counters.count counters.focus)) }

/-- The counters after a key. -/
def press (key : Key) (counters : Counters limit) : Counters limit :=
  match key.move? with
  | some move => counters.move move
  | none => if key.passesFocus then { counters with focus := counters.focus.other } else counters

/-- The counters after an event.  Only the pressing of keys counts. -/
def handle (counters : Counters limit) : Event → Counters limit
  | .press key => counters.press key
  | _ => counters

/-- The counters at the start: the line of an error is in view, if there is one. -/
def opened (outcome : Except ParseError Compilation) : Counters limit where
  focus := .source
  count
    | .source => countTo (limit .source) ((Viewer.errorLine? outcome).getD 0 - 3)
    | .tree => 0

theorem count_move_self (move : Move) (counters : Counters limit) :
    (counters.move move).count counters.focus = move.apply (counters.count counters.focus) :=
  Function.update_self _ _ _

theorem count_move_of_ne {pane : Pane} (move : Move) {counters : Counters limit}
    (h : pane ≠ counters.focus) : (counters.move move).count pane = counters.count pane :=
  Function.update_of_ne h _ _

theorem press_of_move {key : Key} {move : Move} (counters : Counters limit)
    (h : key.move? = some move) : counters.press key = counters.move move := by
  unfold press
  rw [h]

theorem press_of_none {key : Key} (counters : Counters limit) (h : key.move? = none) :
    counters.press key = { counters with
      focus := if key.passesFocus then counters.focus.other else counters.focus } := by
  unfold press
  rw [h]
  cases key.passesFocus <;> rfl

end Counters

/-! ### Rows of the panes -/

/-- An offset in range is at most the number of rows that are not shown. -/
theorem clampOffset_eq_min (total visible offset : Nat) :
    clampOffset total visible offset = min offset (total - visible) := by
  unfold clampOffset
  split <;> omega

/-- Number of rows of a pane.  Without a tree, the tree pane has none to scroll. -/
def Pane.rows? (source : String) (outcome : Except ParseError Compilation) : Pane → Option Nat
  | .source => some (Text.lines source.toList).length
  | .tree => outcome.toOption.map fun compilation => compilation.root.size

/-- Number of rows of a pane that are not shown on a screen of some height, whose last row is the
    status bar. -/
def Pane.limit (source : String) (outcome : Except ParseError Compilation) (height : Nat)
    (pane : Pane) : Nat :=
  (pane.rows? source outcome).getD 0 - visibleRows (height - 1)

/-- The rows of the panes can be counted with 64 bits. -/
def RowsFit (source : String) (outcome : Except ParseError Compilation) : Prop :=
  ∀ (pane : Pane) total, pane.rows? source outcome = some total → total ≤ maxOffset

theorem RowsFit.limit_le {source : String} {outcome : Except ParseError Compilation}
    (h : RowsFit source outcome) (height : Nat) (pane : Pane) :
    pane.limit source outcome height ≤ maxOffset := by
  unfold Pane.limit
  cases hrows : pane.rows? source outcome with
  | none =>
    show 0 - visibleRows (height - 1) ≤ maxOffset
    omega
  | some total =>
    have htotal := h pane total hrows
    show total - visibleRows (height - 1) ≤ maxOffset
    omega

/-! ### Parts of the viewer -/

namespace Viewer

variable {source : String} {outcome : Except ParseError Compilation} {v : Viewer} {pane : Pane}
  {event : Event} {change : Nat → Nat} {height first total : Nat}

/-- The offset of a pane. -/
def offset (v : Viewer) : Pane → Nat
  | .source => v.sourceOffset
  | .tree => v.treeOffset

/-- Two states of the viewer are equal if they agree on the offset of either pane and on what is no
    offset. -/
theorem ext_of_offset {w : Viewer} (hoffset : ∀ pane, v.offset pane = w.offset pane)
    (hsource : v.source = w.source) (houtcome : v.outcome = w.outcome) (hfocus : v.focus = w.focus)
    (hquitting : v.quitting = w.quitting) (hmessage : v.message = w.message) : v = w := by
  have hs : v.sourceOffset = w.sourceOffset := hoffset .source
  have ht : v.treeOffset = w.treeOffset := hoffset .tree
  cases v
  cases w
  simp_all

theorem offset_scroll (change : Nat → Nat) (v : Viewer) :
    (v.scroll change).offset = Function.update v.offset v.focus (change (v.offset v.focus)) := by
  funext pane
  unfold scroll
  cases v.focus <;> cases pane <;> rfl

theorem offset_settle (h : pane.rows? v.source v.outcome ≠ none) :
    (v.settle height).offset pane = min (v.offset pane) (pane.limit v.source v.outcome height) := by
  cases pane with
  | source => exact clampOffset_eq_min _ _ _
  | tree =>
    show TreePane.offset (height - 1) v.outcome v.treeOffset = min v.treeOffset _
    cases houtcome : v.outcome with
    | error error =>
      rw [houtcome] at h
      exact absurd rfl h
    | ok compilation => exact clampOffset_eq_min _ _ _

/-- Without rows, a pane keeps the offset that was asked for. -/
theorem offset_settle_of_none (h : pane.rows? v.source v.outcome = none) :
    (v.settle height).offset pane = v.offset pane := by
  cases pane with
  | source => cases h
  | tree =>
    show TreePane.offset (height - 1) v.outcome v.treeOffset = v.treeOffset
    cases houtcome : v.outcome with
    | error error => rfl
    | ok compilation =>
      rw [houtcome] at h
      cases h

/-! ### Events -/

/-- A key that scrolls asks for a move of the pane that has the focus. -/
theorem press_of_move {key : Key} {move : Move} (v : Viewer) (h : key.move? = some move) :
    v.press key = v.scroll move.asked := by
  cases key with
  | up => cases h; rfl
  | down => cases h; rfl
  | pageUp => cases h; rfl
  | pageDown => cases h; rfl
  | home => cases h; rfl
  | last => cases h; rfl
  | _ => cases h

/-- A key that does not scroll may pass the focus on or close the viewer, and leaves the rest. -/
theorem press_of_none {key : Key} (v : Viewer) (h : key.move? = none) :
    v.press key =
      { v with
        focus := if key.passesFocus then v.focus.other else v.focus
        quitting := v.quitting || (Event.press key).quits } := by
  have hstay (v : Viewer) : v = { v with focus := v.focus, quitting := v.quitting || false } := by
    rw [Bool.or_false]
  cases key with
  | char c =>
    have hquits : (Event.press (.char c)).quits = decide (c = 'q' ∨ c = 'Q') := by
      rw [Bool.decide_or]
      rfl
    by_cases hq : c = 'q' ∨ c = 'Q'
    · -- Two letters close the viewer.
      rw [hquits, decide_eq_true hq, Bool.or_true]
      rcases hq with rfl | rfl <;> rfl
    · rw [hquits, decide_eq_false hq]
      rw [not_or] at hq
      unfold press
      split
      · next h => exact absurd (Key.char.inj h) hq.1
      · next h => exact absurd (Key.char.inj h) hq.2
      all_goals first | exact hstay v | contradiction
  | escape =>
    show _ = { v with focus := v.focus, quitting := v.quitting || true }
    rw [Bool.or_true]
    rfl
  | tab => exact hstay _
  | backTab => exact hstay _
  | up => cases h
  | down => cases h
  | pageUp => cases h
  | pageDown => cases h
  | home => cases h
  | last => cases h
  | _ => exact hstay v

/-- Scrolling changes offsets only. -/
theorem scroll_frame (change : Nat → Nat) (v : Viewer) :
    (v.scroll change).source = v.source ∧ (v.scroll change).outcome = v.outcome ∧
      (v.scroll change).focus = v.focus ∧ (v.scroll change).quitting = v.quitting := by
  cases v with
  | mk source outcome focus => cases focus <;> exact ⟨rfl, rfl, rfl, rfl⟩

/-- Keys that scroll do not close the viewer. -/
theorem quits_of_move {key : Key} {move : Move} (h : key.move? = some move) :
    (Event.press key).quits = false := by
  cases key <;> first | rfl | cases h

/-- No event changes the program, and the viewer closes on some events and stays open on others. -/
theorem handle_frame (event : Event) (v : Viewer) :
    (v.handle event).source = v.source ∧ (v.handle event).outcome = v.outcome ∧
      (v.handle event).quitting = (v.quitting || event.quits) := by
  cases event with
  | press key =>
    show (v.press key).source = _ ∧ (v.press key).outcome = _ ∧ (v.press key).quitting = _
    cases hmove : key.move? with
    | some move =>
      obtain ⟨hsource, houtcome, -, hquitting⟩ := scroll_frame move.asked v
      rw [press_of_move v hmove, quits_of_move hmove, Bool.or_false]
      exact ⟨hsource, houtcome, hquitting⟩
    | none =>
      rw [press_of_none v hmove]
      exact ⟨rfl, rfl, rfl⟩
  | hold key => exact ⟨rfl, rfl, (Bool.or_false _).symm⟩
  | release key => exact ⟨rfl, rfl, (Bool.or_false _).symm⟩
  | focusGained => exact ⟨rfl, rfl, (Bool.or_false _).symm⟩

/-! ### Runs -/

/-- The viewer after a first draw on a screen of some height and after some events, each with the
    height of the screen on which the viewer is drawn next. -/
def shown (v : Viewer) (first : Nat) : List (Event × Nat) → Viewer
  | [] => v.settle first
  | (event, height) :: rest => ((v.settle first).handle event).shown height rest

/-- The height of the last draw. -/
def lastHeight (first : Nat) : List (Event × Nat) → Nat
  | [] => first
  | (_, height) :: rest => lastHeight height rest

/-- A run ends with a draw, and up to there only events have changed more than offsets. -/
theorem exists_settle_of_shown (v : Viewer) (first : Nat) (frames : List (Event × Nat)) :
    ∃ w : Viewer, v.shown first frames = w.settle (lastHeight first frames) ∧
      w.source = v.source ∧ w.outcome = v.outcome ∧
      w.quitting = (v.quitting || frames.any fun frame => frame.1.quits) := by
  induction frames generalizing v first with
  | nil => exact ⟨v, rfl, rfl, rfl, (Bool.or_false _).symm⟩
  | cons frame rest ih =>
    obtain ⟨event, height⟩ := frame
    obtain ⟨w, hshown, hsource, houtcome, hquitting⟩ := ih ((v.settle first).handle event) height
    obtain ⟨hsource', houtcome', hquitting'⟩ := handle_frame event (v.settle first)
    refine ⟨w, hshown, hsource.trans hsource', houtcome.trans houtcome', ?_⟩
    rw [hquitting, hquitting', List.any_cons, Bool.or_assoc]
    rfl

/-- Drawing twice is drawing once. -/
theorem settle_settle (height : Nat) (v : Viewer) :
    (v.settle height).settle height = v.settle height := by
  refine ext_of_offset (fun pane => ?_) rfl rfl rfl rfl rfl
  by_cases hrows : pane.rows? v.source v.outcome = none
  · exact offset_settle_of_none hrows
  · have hagain : ((v.settle height).settle height).offset pane =
        min ((v.settle height).offset pane) (pane.limit v.source v.outcome height) :=
      offset_settle hrows
    rw [hagain, offset_settle hrows, Nat.min_assoc, Nat.min_self]

/-! ### Main result -/

/-- The offsets of the viewer are those of two counters, and the focus is where they have it. -/
structure Follows (source : String) (outcome : Except ParseError Compilation) (height : Nat)
    (counters : Counters (Pane.limit source outcome height)) (v : Viewer) : Prop where
  source_eq : v.source = source
  outcome_eq : v.outcome = outcome
  focus : v.focus = counters.focus
  offset (pane : Pane) (h : pane.rows? source outcome ≠ none) : v.offset pane = counters.count pane

variable {counters : Counters (Pane.limit source outcome height)}

/-- The first draw brings the line of an error into view. -/
theorem follows_opened (source : String) (outcome : Except ParseError Compilation) (height : Nat) :
    Follows source outcome height (Counters.opened outcome)
      ((opened source outcome).settle height) := by
  refine ⟨rfl, rfl, rfl, fun pane h => (offset_settle h).trans ?_⟩
  cases pane with
  | source => rfl
  | tree => exact Nat.zero_min _

/-- An event and a draw move the counters and the offsets alike. -/
theorem Follows.next (hfit : RowsFit source outcome) (event : Event)
    (h : Follows source outcome height counters v) :
    Follows source outcome height (counters.handle event) ((v.handle event).settle height) := by
  obtain ⟨rfl, rfl, hfocus, hoffset⟩ := h
  obtain ⟨hsource, houtcome, -⟩ := handle_frame event v
  -- It remains to compare the offsets before they are brought into range.
  suffices hnext : (v.handle event).focus = (counters.handle event).focus ∧
      ∀ pane : Pane, pane.rows? v.source v.outcome ≠ none →
        min ((v.handle event).offset pane) (pane.limit v.source v.outcome height) =
          (counters.handle event).count pane by
    refine ⟨hsource, houtcome, hnext.1, fun pane hrows => ?_⟩
    rw [← hnext.2 pane hrows, offset_settle (by rw [hsource, houtcome]; exact hrows), hsource,
      houtcome]
  have hstay (pane : Pane) (hrows : pane.rows? v.source v.outcome ≠ none) :
      min (v.offset pane) (pane.limit v.source v.outcome height) = counters.count pane := by
    rw [hoffset pane hrows]
    exact Nat.min_eq_left (Nat.le_of_lt_succ (counters.count pane).isLt)
  cases event with
  | press key =>
    show (v.press key).focus = (counters.press key).focus ∧ ∀ pane : Pane, _ →
      min ((v.press key).offset pane) _ = ((counters.press key).count pane).val
    cases hmove : key.move? with
    | some move =>
      rw [press_of_move v hmove, counters.press_of_move hmove, offset_scroll]
      refine ⟨(scroll_frame move.asked v).2.2.1.trans hfocus, fun pane hrows => ?_⟩
      rw [hfocus]
      by_cases hpane : pane = counters.focus
      · subst hpane
        rw [Function.update_self, Counters.count_move_self, hoffset _ hrows]
        exact move.min_asked _ (hfit.limit_le height _)
      · rw [Function.update_of_ne hpane, Counters.count_move_of_ne move hpane]
        exact hstay pane hrows
    | none =>
      rw [press_of_none v hmove, counters.press_of_none hmove, hfocus]
      exact ⟨rfl, fun pane hrows => hstay pane hrows⟩
  | hold key => exact ⟨hfocus, hstay⟩
  | release key => exact ⟨hfocus, hstay⟩
  | focusGained => exact ⟨hfocus, hstay⟩

/-- A run at a fixed height. -/
theorem Follows.shown (hfit : RowsFit source outcome) (events : List Event)
    (h : Follows source outcome height counters (v.settle height)) :
    Follows source outcome height (events.foldl Counters.handle counters)
      (v.shown height (events.map fun event => (event, height))) := by
  induction events generalizing v counters with
  | nil => exact h
  | cons event rest ih => exact ih (h.next hfit event)

/-- After every draw of a run at a fixed height, the offsets are what two counters say that never
    leave their range.  At heights that change, the offsets are in range after every draw, the keys
    that pass the focus on change nothing else, and once the viewer is about to close it stays so. -/
theorem scrolling (source : String) (outcome : Except ParseError Compilation) :
    (RowsFit source outcome → ∀ (height : Nat) (events : List Event),
      Follows source outcome height (events.foldl Counters.handle (Counters.opened outcome))
        ((opened source outcome).shown height (events.map fun event => (event, height)))) ∧
    ∀ first frames,
      (∀ pane total, pane.rows? source outcome = some total →
        ((opened source outcome).shown first frames).offset pane ≤
          total - visibleRows (lastHeight first frames - 1)) ∧
      (∀ key, key.passesFocus = true →
        (((opened source outcome).shown first frames).press key).settle (lastHeight first frames) =
          { (opened source outcome).shown first frames with
            focus := ((opened source outcome).shown first frames).focus.other }) ∧
      ∀ more, ((opened source outcome).shown first (frames ++ more)).quitting =
        (((opened source outcome).shown first frames).quitting ||
          more.any fun frame => frame.1.quits) := by
  refine ⟨fun hfit height events => (follows_opened source outcome height).shown hfit events,
    fun first frames => ?_⟩
  -- What is shown at the end of a run is settled, so its offsets are in range.
  obtain ⟨w, hshown, hsource, houtcome, hquitting⟩ :=
    exists_settle_of_shown (opened source outcome) first frames
  rw [hshown]
  refine ⟨fun pane total hrows => ?_, fun key hkey => ?_, fun more => ?_⟩
  · have hsome : pane.rows? w.source w.outcome = some total := by
      rw [hsource, houtcome]
      exact hrows
    rw [offset_settle (by rw [hsome]; exact Option.some_ne_none total)]
    unfold Pane.limit
    rw [hsome]
    exact Nat.min_le_right _ _
  · have hpress (v : Viewer) : v.press key = { v with focus := v.focus.other } := by
      cases key with
      | tab => rfl
      | backTab => rfl
      | _ => cases hkey
    rw [hpress]
    have hsettle (v : Viewer) (focus : Pane) :
        { v with focus := focus }.settle (lastHeight first frames) =
          { v.settle (lastHeight first frames) with focus := focus } := rfl
    rw [hsettle, settle_settle]
  · obtain ⟨w', hshown', -, -, hquitting'⟩ :=
      exists_settle_of_shown (opened source outcome) first (frames ++ more)
    rw [hshown']
    show w'.quitting = (w.quitting || _)
    rw [hquitting', hquitting, List.any_append, Bool.or_assoc]

/-- A program of three lines in panes of one row, whose tree has seven nodes: both panes go to their
    last row and one row back. -/
theorem scrolling_threeLines :
    compile .default "DISP A\nDISP B\nDISP C" =
        .ok ⟨⟨.plain (.phrase .prog) 0, none, [
          .branch ⟨.keyword .disp, none, 1⟩ [.leaf ⟨.var .scalar, some "A", 1⟩],
          .branch ⟨.keyword .disp, none, 2⟩ [.leaf ⟨.var .scalar, some "B", 2⟩],
          .branch ⟨.keyword .disp, none, 3⟩ [.leaf ⟨.var .scalar, some "C", 3⟩]]⟩, []⟩ ∧
      RowsFit "DISP A\nDISP B\nDISP C" (compile .default "DISP A\nDISP B\nDISP C") ∧
      ∀ v, v = (opened "DISP A\nDISP B\nDISP C"
          (compile .default "DISP A\nDISP B\nDISP C")).shown 4
            ([.press .last, .press .up, .press .tab, .press .pageDown, .press .up].map (·, 4)) →
        v.offset .source = 1 ∧ v.offset .tree = 5 := by
  have hcompile : compile .default "DISP A\nDISP B\nDISP C" =
      .ok ⟨⟨.plain (.phrase .prog) 0, none, [
        .branch ⟨.keyword .disp, none, 1⟩ [.leaf ⟨.var .scalar, some "A", 1⟩],
        .branch ⟨.keyword .disp, none, 2⟩ [.leaf ⟨.var .scalar, some "B", 2⟩],
        .branch ⟨.keyword .disp, none, 3⟩ [.leaf ⟨.var .scalar, some "C", 3⟩]]⟩, []⟩ := by
    cbv
  rw [hcompile]
  refine ⟨rfl, ?_⟩
  have hfit : RowsFit "DISP A\nDISP B\nDISP C"
      (.ok ⟨⟨.plain (.phrase .prog) 0, none, [
        .branch ⟨.keyword .disp, none, 1⟩ [.leaf ⟨.var .scalar, some "A", 1⟩],
        .branch ⟨.keyword .disp, none, 2⟩ [.leaf ⟨.var .scalar, some "B", 2⟩],
        .branch ⟨.keyword .disp, none, 3⟩ [.leaf ⟨.var .scalar, some "C", 3⟩]]⟩, []⟩) := by
    intro pane total h
    cases pane with
    | source =>
      cases h
      decide
    | tree =>
      cases h
      decide
  refine ⟨hfit, fun v hv => ?_⟩
  subst hv
  have h := (scrolling _ _).1 hfit 4
    [.press .last, .press .up, .press .tab, .press .pageDown, .press .up]
  exact ⟨h.offset .source (Option.some_ne_none _), h.offset .tree (Option.some_ne_none _)⟩

end Viewer

end CalcLang
