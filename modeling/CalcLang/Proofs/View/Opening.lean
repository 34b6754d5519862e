import CalcLang.Proofs.Program.Locating
import CalcLang.View.Viewer

/-! # The line of an error in view

    The viewer is opened with an offset that is three rows above the line of an error, and drawing
    brings that offset into range.  The row of the line is then among those shown, if there is one:

    * `Text.length_lines`: a text has a row for each of its lines, but for an empty last one.
    * `exists_index_of_clampOffset`: the line is in a window of three rows or more.
    * `SourcePane.errorMark_mem_row`: only the row of the error has the mark.
    * `opened_marks_error`: the row of the error is shown and is the only one with the mark iff the
      error is not on the empty last line of a text. -/

namespace CalcLang

/-! ### Rows of a text -/

namespace Text

/-- Nothing is on the last line of a text. -/
def endsWithBreak (text : List Char) : Bool := text.getLast?.all (· == '\n')

theorem endsWithBreak_append_break (before after : List Char) :
    endsWithBreak (before ++ '\n' :: after) = endsWithBreak after := by
  unfold endsWithBreak
  rw [List.getLast?_append, List.getLast?_cons]
  cases after.getLast? with
  | none => rfl
  | some last => rfl

/-- The rows of a text behind the start of a line, given last character first. -/
theorem length_linesFrom (pending text : List Char) (hpending : '\n' ∉ pending) :
    (linesFrom pending text).length =
      text.count '\n' + if endsWithBreak (pending.reverse ++ text) then 0 else 1 := by
  induction text generalizing pending with
  | nil =>
    cases pending with
    | nil => rfl
    | cons last before =>
      -- The last line is not empty, so it has a row without a line break behind it.
      have hopen : endsWithBreak ((last :: before).reverse ++ []) = false := by
        unfold endsWithBreak
        rw [List.append_nil, List.getLast?_reverse, List.head?_cons, Option.all_some]
        exact beq_eq_false_iff_ne.2 fun h => hpending (h ▸ List.mem_cons_self)
      rw [hopen]
      rfl
  | cons c rest ih =>
    rw [linesFrom, count_cons_break]
    by_cases hbreak : c = '\n'
    · rw [if_pos hbreak, if_pos hbreak, List.length_cons, ih [] nofun, hbreak,
        endsWithBreak_append_break, List.reverse_nil, List.nil_append]
      omega
    · have hmore : '\n' ∉ c :: pending :=
        List.not_mem_cons_of_ne_of_not_mem (Ne.symm hbreak) hpending
      rw [if_neg hbreak, if_neg hbreak, ih (c :: pending) hmore, List.reverse_cons,
        List.append_assoc, List.singleton_append, Nat.zero_add]

/-- A text has a row for each of its lines, but for an empty last one. -/
theorem length_lines (text : List Char) :
    (lines text).length + (if endsWithBreak text then 1 else 0) = lastLine text := by
  have hlength := length_linesFrom [] text nofun
  unfold lines lastLine
  rw [hlength, List.reverse_nil, List.nil_append]
  split <;> omega

end Text

/-! ### Windows -/

section Window

variable {α : Type} {offset visible total line index : Nat} {rows : List α}

theorem getElem?_window (rows : List α) (h : index < visible) :
    (window offset visible rows)[index]? = rows[offset + index]? := by
  rw [window, List.getElem?_take_of_lt h, List.getElem?_drop]

theorem length_window_le (rows : List α) : (window offset visible rows).length ≤ visible :=
  List.length_take_le _ _

/-- An offset three rows above a line leaves the line in view, also when brought into range. -/
theorem exists_index_of_clampOffset (hfirst : 1 ≤ line) (hlast : line ≤ total)
    (hvisible : 3 ≤ visible) :
    ∃ index < visible, clampOffset total visible (line - 3) + index + 1 = line := by
  refine ⟨line - 1 - clampOffset total visible (line - 3), ?_, ?_⟩
  all_goals
    unfold clampOffset
    split <;> omega

end Window

/-! ### The mark -/

/-- The mark is in the colour of errors, but no word that is underlined. -/
theorem wordStyle_ne_errorMark (word : List Char) :
    wordStyle word ≠ SourcePane.errorMark.style := by
  unfold wordStyle
  split
  · next kind hkind =>
    cases kind with
    | literal word => cases word <;> exact nofun
    | _ => exact nofun
  · exact nofun

/-- No piece of a line is in the style of the mark. -/
theorem style_highlightFrom_ne_errorMark (mode : HighlightMode) (line : List Char) :
    ∀ piece ∈ highlightFrom mode line, piece.style ≠ SourcePane.errorMark.style := by
  have hword (pending : List Char) :
      ∀ piece ∈ wordFragment pending, piece.style ≠ SourcePane.errorMark.style := by
    intro piece hpiece
    unfold wordFragment at hpiece
    split at hpiece
    · cases hpiece
    · rw [List.mem_singleton.1 hpiece]
      exact wordStyle_ne_errorMark _
  fun_induction highlightFrom mode line with
  | case1 pending => exact hword pending
  | case2 pending => exact List.forall_mem_singleton.2 nofun
  | case3 pending rest ih => exact List.forall_mem_cons.2 ⟨nofun, ih⟩
  | case4 pending c rest h ih => exact ih
  | case5 pending rest =>
    exact List.forall_mem_append.2 ⟨hword pending, List.forall_mem_singleton.2 nofun⟩
  | case6 pending rest h ih => exact List.forall_mem_append.2 ⟨hword pending, ih⟩
  | case7 pending c rest h h' hmark ih =>
    exact List.forall_mem_append.2 ⟨hword pending, List.forall_mem_cons.2 ⟨nofun, ih⟩⟩
  | case8 pending c rest h h' hmark hblank ih =>
    exact List.forall_mem_append.2 ⟨hword pending, List.forall_mem_cons.2 ⟨nofun, ih⟩⟩
  | case9 pending c rest h h' hmark hblank ih => exact ih

/-! ### Drawing -/

namespace Picture

variable {width height index : Nat} {style : Style} {title : String} {row : List Cell}
  {line : List Fragment} {lines : List (List Fragment)} {inside : Nat → Nat → Picture}

theorem getElem?_ofLines (hindex : index < height) (h : lines[index]? = some line) :
    (ofLines width height style lines)[index]? = some (fitRow width style (cells style line)) := by
  have hlength := (List.getElem?_eq_some_iff.1 h).1
  have hshown : index < ((lines.take height).map
      fun line => fitRow width style (cells style line)).length := by
    rw [List.length_map, List.length_take]
    omega
  rw [ofLines, List.getElem?_append_left hshown, List.getElem?_map,
    List.getElem?_take_of_lt hindex, h]
  rfl

/-- A row inside a frame stands below the upper edge, between the sides. -/
theorem getElem?_framed (h : (inside (width - 2) height)[index]? = some row) :
    (framed width (height + 2) style title inside)[index + 1]? =
      some (⟨'│', style⟩ :: row ++ [⟨'│', style⟩]) := by
  have hlength := (List.getElem?_eq_some_iff.1 h).1
  have hinside : index < ((inside (width - 2) height).map
      fun row => ⟨'│', style⟩ :: row ++ [⟨'│', style⟩]).length := by
    rw [List.length_map]
    exact hlength
  rw [framed, List.cons_append, List.getElem?_cons_succ, List.getElem?_append_left hinside,
    List.getElem?_map, h]
  rfl

end Picture

/-! ### The source pane -/

namespace SourcePane

/-- The rows that the pane shows at an offset. -/
def shown (height : Nat) (errorLine : Option Nat) (source : String) (offset : Nat) :
    List (List Fragment) :=
  window offset (visibleRows height) (rows errorLine source)

/-- A row as it is drawn: cut to the width of the pane, between the sides of the frame. -/
def drawnRow (width : Nat) (focused : Bool) (row : List Fragment) : List Cell :=
  let side : Cell := ⟨'│', Palette.frame focused⟩
  side :: Picture.fitRow (width - 2) .plain (Picture.cells .plain row) ++ [side]

theorem getElem?_rows (errorLine : Option Nat) (source : String) (index : Nat) :
    (rows errorLine source)[index]? = (Text.lines source.toList)[index]?.map
      (row (errorLine == some (index + 1)) (index + 1)) :=
  List.getElem?_mapIdx

/-- Only the row of the error has the mark. -/
theorem errorMark_mem_row {isError : Bool} {number : Nat} {line : List Char} :
    errorMark ∈ row isError number line ↔ isError = true := by
  cases isError with
  | true => simp [row]
  | false =>
    -- Neither the number nor a piece of the line is in the style of the mark.
    have hnumber : lineNumber number (.colored Palette.comment) ≠ errorMark := by
      have hstyle : Style.colored Palette.comment ≠ .colored Palette.error := nofun
      intro h
      exact hstyle (congrArg Fragment.style h)
    have hline : errorMark ∉ highlight line := by
      intro h
      exact style_highlightFrom_ne_errorMark _ _ _ h rfl
    simp [row, hnumber.symm, hline]

/-- A row that is shown is drawn below the upper edge of the pane. -/
theorem getElem?_draw {width height offset index : Nat} {focused : Bool} {errorLine : Option Nat}
    {source : String} {row : List Fragment} (hheight : 3 ≤ height)
    (h : (shown height errorLine source offset)[index]? = some row) :
    (draw width height focused errorLine source offset)[index + 1]? =
      some (drawnRow width focused row) := by
  obtain ⟨inner, rfl⟩ : ∃ inner, height = inner + 2 := ⟨height - 2, by omega⟩
  have hvisible : visibleRows (inner + 2) = inner := by
    unfold visibleRows
    omega
  have hindex : index < inner :=
    (List.getElem?_eq_some_iff.1 h).1.trans_le ((length_window_le _).trans_eq hvisible)
  have hsome : (shown (inner + 2) errorLine source offset).isEmpty = false := by
    rw [List.isEmpty_eq_false_iff]
    intro hempty
    rw [hempty] at h
    cases h
  unfold draw
  apply Picture.getElem?_framed
  rw [if_neg (by rw [← shown, hsome]; exact Bool.false_ne_true)]
  exact Picture.getElem?_ofLines hindex h

/-- At an offset, the row of a line is drawn with the mark, and no other one that is shown has the
    mark. -/
def MarksOnly (height : Nat) (source : String) (offset line : Nat) : Prop :=
  ∃ index text, offset + index + 1 = line ∧
    (Text.lines source.toList)[offset + index]? = some text ∧
    (∀ width focused, (draw width height focused (some line) source offset)[index + 1]? =
      some (drawnRow width focused (row true line text))) ∧
    ∀ other shownRow, (shown height (some line) source offset)[other]? = some shownRow →
      (errorMark ∈ shownRow ↔ other = index)

/-- The row of a line has the mark and no other one has it, if it is in view. -/
theorem marksOnly_of_index {height offset line index : Nat} {source : String} (hheight : 3 ≤ height)
    (hindex : index < visibleRows height) (hline : offset + index + 1 = line)
    (hrow : line ≤ (Text.lines source.toList).length) : MarksOnly height source offset line := by
  obtain ⟨text, htext⟩ : ∃ text, (Text.lines source.toList)[offset + index]? = some text :=
    ⟨_, List.getElem?_eq_getElem (by omega)⟩
  have hshown (other : Nat) (hother : other < visibleRows height) :
      (shown height (some line) source offset)[other]? =
        (Text.lines source.toList)[offset + other]?.map
          (row (some line == some (offset + other + 1)) (offset + other + 1)) := by
    rw [shown, getElem?_window _ hother, getElem?_rows]
  refine ⟨index, text, hline, htext, ?_, ?_⟩
  · intro width focused
    apply getElem?_draw hheight
    rw [hshown index hindex, htext, hline, beq_self_eq_true]
    rfl
  · intro other shownRow h
    have hother : other < visibleRows height :=
      Nat.lt_of_lt_of_le (List.getElem?_eq_some_iff.1 h).1 (length_window_le _)
    rw [hshown other hother] at h
    obtain ⟨text', -, rfl⟩ := Option.map_eq_some_iff.1 h
    rw [errorMark_mem_row, beq_iff_eq, Option.some_inj]
    omega

end SourcePane

/-! ### The viewer at the start -/

/-- The row of the error is shown and is the only one that is marked, unless the error is on the
    last line of a text and nothing is on that line: then there is no such row. -/
theorem opened_marks_error (options : ReadOptions) (source : String) (error : ParseError)
    (line height : Nat) (h : compile options source = .error error)
    (hline : error.line? = some line) (hheight : 5 ≤ height) :
    SourcePane.MarksOnly height source
        (SourcePane.offset height source (Viewer.opened source (.error error)).sourceOffset) line ↔
      ¬(line = lastLine source.toList ∧ Text.endsWithBreak source.toList = true) := by
  have hrange := line_of_compile_error h line hline
  have hrows := Text.length_lines source.toList
  have hopened : (Viewer.opened source (.error error)).sourceOffset = line - 3 := by
    show (error.line?.getD 0) - 3 = line - 3
    rw [hline]
    rfl
  rw [hopened]
  constructor
  · -- There are fewer rows than lines, so the last line is in no window.
    rintro ⟨index, text, hindex, htext, -, -⟩ ⟨hlast, hbreak⟩
    have hlength := (List.getElem?_eq_some_iff.1 htext).1
    rw [if_pos hbreak] at hrows
    omega
  · -- The line has a row, and two rows above it fit into the window.
    intro hnot
    have hrow : line ≤ (Text.lines source.toList).length := by
      split at hrows
      · next hbreak =>
        have hlast : line ≠ lastLine source.toList := fun hlast => hnot ⟨hlast, hbreak⟩
        omega
      · omega
    have hvisible : 3 ≤ visibleRows height := by
      unfold visibleRows
      omega
    obtain ⟨index, hindex, hplace⟩ := exists_index_of_clampOffset hrange.1 hrow hvisible
    exact SourcePane.marksOnly_of_index (by omega) hindex hplace hrow

/-- A `DISP` without an operand on the fifth of six lines, in a pane of three rows. -/
theorem opened_marks_error_disp :
    compile .default "A -> 1\nB -> 2\nC -> 3\nD -> 4\nDISP\nDISP A" =
        .error (.grammar .expectedOutput (some "LINE_BREAK") (some 5)) ∧
      (ParseError.grammar .expectedOutput (some "LINE_BREAK") (some 5)).line? = some 5 ∧
      SourcePane.MarksOnly 5 "A -> 1\nB -> 2\nC -> 3\nD -> 4\nDISP\nDISP A"
        (SourcePane.offset 5 "A -> 1\nB -> 2\nC -> 3\nD -> 4\nDISP\nDISP A" 2) 5 := by
  have h : compile .default "A -> 1\nB -> 2\nC -> 3\nD -> 4\nDISP\nDISP A" =
      .error (.grammar .expectedOutput (some "LINE_BREAK") (some 5)) := by
    cbv
  have hlast : lastLine "A -> 1\nB -> 2\nC -> 3\nD -> 4\nDISP\nDISP A".toList = 6 := by cbv
  refine ⟨h, rfl, (opened_marks_error _ _ _ 5 5 h rfl (Nat.le_refl 5)).2 ?_⟩
  rintro ⟨hline, -⟩
  rw [hlast] at hline
  cases hline

/-- Behind a line break at the end of a text, the operand is missing on a line without a row. -/
theorem opened_marks_error_atEnd :
    compile .default "DISP\n" = .error (.grammar .expectedOutput (some "EOF") (some 2)) ∧
      (ParseError.grammar .expectedOutput (some "EOF") (some 2)).line? = some 2 ∧
      ¬SourcePane.MarksOnly 5 "DISP\n" (SourcePane.offset 5 "DISP\n" (Viewer.opened "DISP\n"
        (.error (.grammar .expectedOutput (some "EOF") (some 2)))).sourceOffset) 2 := by
  refine ⟨by cbv, rfl, ?_⟩
  show ¬SourcePane.MarksOnly 5 "DISP\n" 0 2
  rintro ⟨index, text, hindex, htext, -, -⟩
  obtain rfl : index = 1 := by omega
  cases htext

end CalcLang
