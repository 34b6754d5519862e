import CalcLang.Proofs.Scan.Locality
import CalcLang.Proofs.Scan.Origin
import CalcLang.Proofs.Scan.Shapes

/-! # Character literals

    A word is held against the shape of a character literal in upper case, and a character may grow
    there: `ß` is written `SS`.  So a character between apostrophes is a literal only if it stays a
    single character.

    * `tokenize_word`: the tokens of a program that is a single word.
    * `isCharLiteral_upcase_iff`: the words whose upper-case form is a character between apostrophes.
    * `Word.kind?_of_apostrophe`: what starts with an apostrophe is such a word, or no word at all.
    * `tokenize_charLiteral`: the words that are character literals, and what comes of the others of
      the same form. -/

namespace CalcLang

open Text

variable {word : List Char}

/-! ### Single words -/

/-- A program that is a single word is the token of that word. -/
theorem tokenize_word (hsome : word ≠ []) (hrun : ∀ c ∈ word, endsWord c = false) :
    tokenize (String.ofList word) =
      match Word.kind? word with
      | none => .error ⟨String.ofList word, 1⟩
      | some kind => .ok [.ofWord kind word 1, .endOfFile 1] := by
  have hscan : scan (.code []) 1 word = flush 1 word.reverse := by
    have hpending : scan (.code []) 1 (word ++ []) = scan (.code (word.reverse ++ [])) 1 [] :=
      scan_run hrun []
    rw [List.append_nil, List.append_nil] at hpending
    rw [hpending]
    rfl
  rw [tokenize_line (notMem_break_of_run hrun), hscan, result_flush (by simpa using hsome),
    List.reverse_reverse]
  cases Word.kind? word <;> rfl

/-! ### Between apostrophes -/

theorem Word.isCharLiteral_iff : isCharLiteral word = true ↔ ∃ c, word = ['\'', c, '\''] := by
  constructor
  · intro h
    unfold isCharLiteral at h
    split at h
    · next first c last =>
      rw [Bool.and_eq_true, beq_iff_eq, beq_iff_eq] at h
      exact ⟨c, by rw [h.1, h.2]⟩
    · cases h
  · rintro ⟨c, rfl⟩
    rfl

/-- The words that are a character between apostrophes in upper case: the character does not grow. -/
theorem isCharLiteral_upcase_iff : Word.isCharLiteral (upcase word) = true ↔
    ∃ c, word = ['\'', c, '\''] ∧ (upcaseChar c).length = 1 := by
  rw [Word.isCharLiteral_iff]
  constructor
  · rintro ⟨d, hupper⟩
    -- An apostrophe is the upper-case form of nothing but itself, at either end.
    have hmark : ∀ e ∈ ['\''], 0 < e.toNat ∧ e.toNat < 65 := by
      intro e he
      rw [List.mem_singleton.1 he]
      decide
    obtain ⟨rest, rfl, hrest⟩ := exists_of_upcase_eq_cons hupper (by decide) (by decide)
    obtain ⟨c, tail, rfl, hc, htail⟩ := exists_of_upcase_eq_letter hrest hmark
    have hlast : upcase tail = tail := by
      apply upcase_eq_self
      rw [htail]
      exact hmark
    rw [← hlast, htail]
    refine ⟨c, rfl, ?_⟩
    rw [hc]
    rfl
  · rintro ⟨c, rfl, hlength⟩
    obtain ⟨d, hd⟩ := List.length_eq_one_iff.1 hlength
    have hapostrophe : upcaseChar '\'' = ['\''] := by
      decide
    refine ⟨d, ?_⟩
    rw [upcase_cons, upcase_cons, upcase_cons, upcase_nil, hapostrophe, hd]
    rfl

/-- What starts with an apostrophe is a character literal or no word of the language. -/
theorem Word.kind?_of_apostrophe (rest : List Char) : kind? ('\'' :: rest) =
    if isCharLiteral (upcase ('\'' :: rest)) then some (.literal .char) else none := by
  have hupper : upcase ('\'' :: rest) = '\'' :: upcase rest := rfl
  have hstring : isStringLiteral ('\'' :: upcase rest) = false := rfl
  unfold kind? classify
  rw [hupper, Kind.ofSpelling?_of_head (by decide) (by decide),
    shape?_of_head (by decide) (by decide) (by decide), hstring]
  rfl

/-- No other words are character literals. -/
theorem Word.kind?_eq_char_iff : kind? word = some (.literal .char) ↔
    ∃ c, word = ['\'', c, '\''] ∧ (upcaseChar c).length = 1 := by
  constructor
  · intro h
    exact isCharLiteral_upcase_iff.1 (hasShape_of_kind? h)
  · rintro ⟨c, rfl, hlength⟩
    rw [kind?_of_apostrophe, isCharLiteral_upcase_iff.2 ⟨c, rfl, hlength⟩]
    rfl

/-! ### The literals of a program -/

/-- A word is a character literal if and only if it is a character between apostrophes that is still
    a single character in upper case.  Any other character between apostrophes is an error. -/
theorem tokenize_charLiteral (hsome : word ≠ []) (hrun : ∀ c ∈ word, endsWord c = false) :
    (tokenize (String.ofList word) =
        .ok [⟨.literal .char, some (String.ofList word), 1⟩, .endOfFile 1] ↔
      ∃ c, word = ['\'', c, '\''] ∧ (upcaseChar c).length = 1) ∧
    ∀ c, word = ['\'', c, '\''] → (upcaseChar c).length ≠ 1 →
      tokenize (String.ofList word) = .error ⟨String.ofList word, 1⟩ := by
  rw [tokenize_word hsome hrun, ← Word.kind?_eq_char_iff]
  refine ⟨?_, ?_⟩
  · cases hkind : Word.kind? word with
    | none => simp
    | some kind =>
      constructor
      · intro h
        have hfirst := (List.cons.inj (Except.ok.inj h)).1
        have hsame : kind = .literal .char := congrArg Token.kind hfirst
        rw [hsame]
      · intro h
        cases h
        rfl
  · rintro c rfl hgrows
    have hnone : Word.isCharLiteral (upcase ['\'', c, '\'']) = false := by
      rw [Bool.eq_false_iff]
      intro hliteral
      obtain ⟨d, hd, hlength⟩ := isCharLiteral_upcase_iff.1 hliteral
      cases hd
      exact hgrows hlength
    rw [Word.kind?_of_apostrophe, hnone]
    rfl

/-- An accented letter is a single character in both cases, and a sharp `ß` is not. -/
theorem tokenize_charLiteral_accented :
    tokenize "'é'" = .ok [⟨.literal .char, some "'é'", 1⟩, .endOfFile 1] ∧
      tokenize "'ß'" = .error ⟨"'ß'", 1⟩ := by
  have haccented : ∀ c ∈ ['\'', 'é', '\''], endsWord c = false := by
    simp [endsWord]
  have hsharp : ∀ c ∈ ['\'', 'ß', '\''], endsWord c = false := by
    simp [endsWord]
  exact ⟨(tokenize_charLiteral (List.cons_ne_nil _ _) haccented).1.2 ⟨'é', rfl, by decide⟩,
    (tokenize_charLiteral (List.cons_ne_nil _ _) hsharp).2 'ß' rfl (by decide)⟩

/-- A character between apostrophes need not be a literal. -/
theorem tokenize_charLiteral_grows : ¬∀ word : List Char, word ≠ [] →
    (∀ c ∈ word, endsWord c = false) →
    (tokenize (String.ofList word) =
        .ok [⟨.literal .char, some (String.ofList word), 1⟩, .endOfFile 1] ↔
      ∃ c, word = ['\'', c, '\'']) := by
  intro h
  have hliteral := (h ['\'', 'ß', '\''] (by decide) (by simp [endsWord])).2 ⟨'ß', rfl⟩
  have herror : tokenize (String.ofList ['\'', 'ß', '\'']) = .error ⟨"'ß'", 1⟩ := by
    cbv
  rw [herror] at hliteral
  cases hliteral

end CalcLang
