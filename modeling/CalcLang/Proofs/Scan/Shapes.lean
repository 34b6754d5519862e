import CalcLang.Proofs.Scan.LetterCase
import CalcLang.Proofs.Scan.Spelling

/-! # The shapes of words

    A word is classified by the shape of its upper-case form.  This says how the word itself is
    written, up to the few characters outside ASCII that are written with ASCII letters in upper
    case:

    * `Word.HasShape`: what the upper-case form of a word of some kind looks like.
    * `Text.upcaseChar_foreign`: the upper-case forms of characters outside ASCII.
    * `Text.upcase_eq_self`: what has no letter in upper case has none in lower case.
    * `Text.exists_of_upcase_eq_cons`: the character behind the first one of an upper-case form. -/

namespace CalcLang

variable {text word rest : List Char} {c d : Char} {kind : Kind}

namespace Word

/-- What the upper-case form of a word of some kind looks like, for the kinds that have a shape. -/
def HasShape (word : List Char) : Kind → Prop
  | .literal .char => isCharLiteral word = true
  | .literal .string => isStringLiteral word = true
  | .literal .int => isDigits word = true
  | .literal .float => isFloatLiteral word = true
  | .literal .hex => isMarkedLiteral 'X' isHexDigit word = true
  | .literal .bin => isMarkedLiteral 'B' isBinDigit word = true
  | .var .scalar => isScalar word = true
  | .var .array => isArray word = true
  | _ => True

theorem hasShape_of_shape? (h : shape? word = some kind) : HasShape word kind := by
  unfold shape? at h
  -- The shapes are tried one after the other.
  repeat' split at h
  all_goals cases h
  all_goals assumption

/-- No literal and no variable has a fixed spelling. -/
theorem hasShape_of_ofSpelling? {spelling : String} (h : Kind.ofSpelling? spelling = some kind) :
    HasShape word kind := by
  unfold Kind.ofSpelling? at h
  rw [Option.or_eq_some_iff] at h
  rcases h with h | ⟨-, h⟩
  · have hsymbol := List.find?_some h
    cases kind with
    | literal _ | var _ => cases hsymbol
    | _ => trivial
  · -- Both alternate spellings are those of keywords.
    simp only [Kind.alternateSpellings, List.lookup_cons, List.lookup_nil] at h
    repeat' split at h
    all_goals cases h
    all_goals trivial

theorem hasShape_of_kind? (h : kind? word = some kind) : HasShape (Text.upcase word) kind := by
  unfold kind? classify at h
  rcases Option.or_eq_some_iff.1 h with h | ⟨-, h⟩
  · exact hasShape_of_ofSpelling? h
  · exact hasShape_of_shape? h

end Word

namespace Word

/-! ### Digits -/

theorem toNat_of_isDigit (h : c.isDigit = true) : 48 ≤ c.toNat ∧ c.toNat ≤ 57 := by
  unfold Char.isDigit at h
  rw [Bool.and_eq_true, decide_eq_true_eq, decide_eq_true_eq] at h
  exact h

theorem toNat_of_isHexDigit (h : isHexDigit c = true) :
    48 ≤ c.toNat ∧ c.toNat ≤ 57 ∨ 65 ≤ c.toNat ∧ c.toNat ≤ 70 := by
  unfold isHexDigit at h
  rw [Bool.or_eq_true, Bool.and_eq_true, decide_eq_true_eq, decide_eq_true_eq] at h
  exact h.imp toNat_of_isDigit id

theorem isDigits_iff : isDigits word = true ↔ word ≠ [] ∧ ∀ c ∈ word, c.isDigit = true := by
  unfold isDigits
  rw [Bool.and_eq_true, Bool.not_eq_true', List.isEmpty_eq_false_iff, List.all_eq_true]

end Word

namespace Text

/-! ### Upper-case forms of single characters -/

theorem upcaseChar_ascii (h : c.toNat < 0x80) : upcaseChar c = [asciiUpcaseChar c] := by
  unfold upcaseChar
  rw [if_pos h]

/-- The upper-case form of a character outside ASCII is longer than one character, or it is one
    outside ASCII as well.  There are two exceptions. -/
theorem upcaseChar_foreign (h : 0x80 ≤ c.toNat) :
    (∃ codes, (c.toNat, codes) ∈ CaseTable.expansions ∧ upcaseChar c = codes.map Char.ofNat) ∨
      ∃ d, upcaseChar c = [d] ∧
        (c = 'ı' ∧ d = 'I' ∨ c = 'ſ' ∧ d = 'S' ∨ 0x80 ≤ d.toNat ∨ d = '\x00') := by
  have hcode (code : Nat) (hforeign : 0x80 ≤ code) :
      0x80 ≤ (Char.ofNat code).toNat ∨ Char.ofNat code = '\x00' := by
    by_cases hvalid : code.isValidChar
    · left
      rw [Char.ofNat, dif_pos hvalid]
      exact hforeign
    · right
      rw [Char.ofNat, dif_neg hvalid]
      rfl
  unfold upcaseChar
  rw [if_neg (by omega)]
  split
  · next codes hlookup =>
    left
    obtain ⟨before, after, hentry, -⟩ := List.lookup_eq_some_iff.1 hlookup
    refine ⟨codes, ?_, rfl⟩
    rw [hentry]
    simp
  · right
    split
    · next run hrun =>
      -- Only two of the runs lead into ASCII, and each is a single character long.
      have htable : ∀ run ∈ CaseTable.runs, 0x80 ≤ run.image ∨
          run.first = 0x131 ∧ run.last = 0x131 ∧ run.image = 0x49 ∨
          run.first = 0x17F ∧ run.last = 0x17F ∧ run.image = 0x53 := by
        decide +kernel
      have hcovers := List.find?_some hrun
      unfold CaseTable.Run.covers at hcovers
      simp only [Bool.and_eq_true, decide_eq_true_eq] at hcovers
      obtain ⟨⟨hfirst, hlast⟩, -⟩ := hcovers
      refine ⟨_, rfl, ?_⟩
      unfold CaseTable.Run.apply
      rcases htable run (List.mem_of_find?_eq_some hrun) with himage | himage | himage
      · exact .inr (.inr (hcode _ (by omega)))
      · have hc : c.toNat = 0x131 := by omega
        rw [hc, himage.1, himage.2.2]
        exact .inl ⟨Char.toNat_inj.1 hc, rfl⟩
      · have hc : c.toNat = 0x17F := by omega
        rw [hc, himage.1, himage.2.2]
        exact .inr (.inl ⟨Char.toNat_inj.1 hc, rfl⟩)
    · exact ⟨c, rfl, .inr (.inr (.inl h))⟩

theorem upcaseChar_ne_nil (c : Char) : upcaseChar c ≠ [] := by
  by_cases hascii : c.toNat < 0x80
  · rw [upcaseChar_ascii hascii]
    exact List.cons_ne_nil _ _
  · rcases upcaseChar_foreign (Nat.le_of_not_lt hascii) with
      ⟨codes, hentry, hupper⟩ | ⟨d, hupper, -⟩
    · have htable : ∀ entry ∈ CaseTable.expansions, entry.2 ≠ [] := by decide +kernel
      rw [hupper]
      simpa using htable _ hentry
    · rw [hupper]
      exact List.cons_ne_nil _ _

/-- A digit or a mark in an upper-case form is the character itself. -/
theorem upcaseChar_of_mem (h : d ∈ upcaseChar c) (hsome : 0 < d.toNat) (hsmall : d.toNat < 65) :
    c = d ∧ upcaseChar c = [d] := by
  rcases mem_upcaseChar h with rfl | rfl | hlarge
  · rcases asciiUpcaseChar_cases d with ⟨hlow, -⟩ | ⟨-, hsame⟩
    · omega
    · exact ⟨rfl, by rw [upcaseChar_ascii (by omega), hsame]⟩
  · cases hsome
  · omega

/-- A single letter is the upper-case form of itself, of its lower-case letter, and in two cases of a
    character outside ASCII. -/
theorem upcaseChar_eq_letter (h : upcaseChar c = [d]) (hletter : Word.isLetter d = true) :
    c.toNat < 0x80 ∧ asciiUpcaseChar c = d ∨ c = 'ı' ∧ d = 'I' ∨ c = 'ſ' ∧ d = 'S' := by
  unfold Word.isLetter at hletter
  rw [Bool.and_eq_true, decide_eq_true_eq, decide_eq_true_eq] at hletter
  have hfirst : 65 ≤ d.toNat := hletter.1
  have hlast : d.toNat ≤ 90 := hletter.2
  by_cases hascii : c.toNat < 0x80
  · rw [upcaseChar_ascii hascii] at h
    exact .inl ⟨hascii, (List.cons.inj h).1⟩
  · right
    rcases upcaseChar_foreign (Nat.le_of_not_lt hascii) with
      ⟨codes, hentry, hupper⟩ | ⟨d', hupper, hd'⟩
    · -- The longer forms are not single letters.
      have htable : ∀ entry ∈ CaseTable.expansions, entry.2.length ≠ 1 := by decide +kernel
      have hlength := congrArg List.length (hupper.symm.trans h)
      rw [List.length_map] at hlength
      exact absurd hlength (htable _ hentry)
    · rw [h] at hupper
      rw [← (List.cons.inj hupper).1] at hd'
      rcases hd' with hd' | hd' | hlarge | hnone
      · exact .inl hd'
      · exact .inr hd'
      · omega
      · rw [hnone] at hfirst
        cases hfirst

/-! ### Upper-case forms of words -/

theorem upcase_eq_map (h : ∀ c ∈ text, c.toNat < 0x80) : upcase text = text.map asciiUpcaseChar := by
  induction text with
  | nil => rfl
  | cons c rest ih =>
    obtain ⟨hc, hrest⟩ := List.forall_mem_cons.1 h
    rw [upcase_cons, upcaseChar_ascii hc, ih hrest]
    rfl

/-- A word without letters in upper case is in upper case already. -/
theorem upcase_eq_self (h : ∀ d ∈ upcase text, 0 < d.toNat ∧ d.toNat < 65) : upcase text = text := by
  induction text with
  | nil => rfl
  | cons c rest ih =>
    rw [upcase_cons] at h ⊢
    obtain ⟨hc, hrest⟩ := List.forall_mem_append.1 h
    obtain ⟨d, hd⟩ := List.exists_mem_of_ne_nil _ (upcaseChar_ne_nil c)
    obtain ⟨rfl, hsame⟩ := upcaseChar_of_mem hd (hc d hd).1 (hc d hd).2
    rw [hsame, ih hrest]
    rfl

/-- A digit or a mark in front of an upper-case form is in front of the word. -/
theorem exists_of_upcase_eq_cons (h : upcase word = d :: rest) (hsome : 0 < d.toNat)
    (hsmall : d.toNat < 65) : ∃ tail, word = d :: tail ∧ upcase tail = rest := by
  cases word with
  | nil => cases h
  | cons c tail =>
    rw [upcase_cons] at h
    obtain ⟨first, more, hupper⟩ := List.exists_cons_of_ne_nil (upcaseChar_ne_nil c)
    have hd : d ∈ upcaseChar c := by
      rw [hupper, List.cons_append] at h
      rw [hupper, (List.cons.inj h).1]
      exact List.mem_cons_self
    obtain ⟨rfl, hsame⟩ := upcaseChar_of_mem hd hsome hsmall
    rw [hsame] at h
    exact ⟨tail, rfl, (List.cons.inj h).2⟩

/-- A character in front of digits and marks is the whole upper-case form of one character. -/
theorem exists_of_upcase_eq_letter (h : upcase word = d :: rest)
    (hrest : ∀ e ∈ rest, 0 < e.toNat ∧ e.toNat < 65) :
    ∃ c tail, word = c :: tail ∧ upcaseChar c = [d] ∧ upcase tail = rest := by
  cases word with
  | nil => cases h
  | cons c tail =>
    rw [upcase_cons] at h
    obtain ⟨first, more, hupper⟩ := List.exists_cons_of_ne_nil (upcaseChar_ne_nil c)
    rw [hupper, List.cons_append] at h
    obtain ⟨rfl, hmore⟩ := List.cons.inj h
    cases more with
    | nil => exact ⟨c, tail, rfl, hupper, hmore⟩
    | cons e more =>
      -- A digit or a mark would be all there is.
      have he := hrest e (by rw [← hmore]; exact List.mem_cons_self)
      have hmem : e ∈ upcaseChar c := by
        rw [hupper]
        exact List.mem_cons_of_mem _ List.mem_cons_self
      have hsame := (upcaseChar_of_mem hmem he.1 he.2).2
      rw [hupper] at hsame
      cases hsame

/-- The letters that mark a base are in front of no longer upper-case form. -/
theorem exists_of_upcase_eq_mark (h : upcase word = d :: rest) (hmark : d = 'X' ∨ d = 'B') :
    ∃ c tail, word = c :: tail ∧ c.toNat < 0x80 ∧ upcase tail = rest := by
  cases word with
  | nil => cases h
  | cons c tail =>
    rw [upcase_cons] at h
    by_cases hascii : c.toNat < 0x80
    · rw [upcaseChar_ascii hascii] at h
      exact ⟨c, tail, rfl, hascii, (List.cons.inj h).2⟩
    exfalso
    rcases upcaseChar_foreign (Nat.le_of_not_lt hascii) with
      ⟨codes, hentry, hupper⟩ | ⟨d', hupper, hd'⟩
    · have htable : ∀ entry ∈ CaseTable.expansions, entry.2 ≠ [] ∧
          ∀ code ∈ entry.2.head?, Char.ofNat code ≠ 'X' ∧ Char.ofNat code ≠ 'B' := by
        decide +kernel
      obtain ⟨hsome, hhead⟩ := htable _ hentry
      cases codes with
      | nil => exact hsome rfl
      | cons code more =>
        have hcode := hhead code rfl
        rw [hupper, List.map_cons, List.cons_append] at h
        rw [(List.cons.inj h).1] at hcode
        rcases hmark with hX | hB
        · exact hcode.1 hX
        · exact hcode.2 hB
    · rw [hupper] at h
      rw [(List.cons.inj h).1] at hd'
      rcases hmark with rfl | rfl <;> revert hd' <;> simp

/-- Outside ASCII, one character is written with the digits of base sixteen in upper case. -/
theorem ascii_of_upcase_isHexDigit (h : ∀ d ∈ upcase text, Word.isHexDigit d = true)
    (hligature : 'ﬀ' ∉ text) : ∀ c ∈ text, c.toNat < 0x80 := by
  intro c hc
  by_contra hforeign
  have hdigits : ∀ d ∈ upcaseChar c, Word.isHexDigit d = true := by
    intro d hd
    exact h d (List.mem_flatMap.2 ⟨c, hc, hd⟩)
  rcases upcaseChar_foreign (Nat.le_of_not_lt hforeign) with
    ⟨codes, hentry, hupper⟩ | ⟨d, hupper, hd⟩
  · have htable : ∀ entry ∈ CaseTable.expansions,
        (∀ code ∈ entry.2, Word.isHexDigit (Char.ofNat code) = true) → entry.1 = 0xFB00 := by
      decide +kernel
    have hcode : c.toNat = 0xFB00 := by
      apply htable _ hentry
      intro code hmem
      apply hdigits
      rw [hupper]
      exact List.mem_map_of_mem hmem
    have hc' : c = 'ﬀ' := Char.toNat_inj.1 hcode
    exact hligature (hc' ▸ hc)
  · have hdigit := hdigits d (by rw [hupper]; exact List.mem_singleton_self d)
    rcases hd with ⟨-, rfl⟩ | ⟨-, rfl⟩ | hlarge | rfl
    · cases hdigit
    · cases hdigit
    · have hsmall := Word.toNat_of_isHexDigit hdigit
      omega
    · cases hdigit

end Text

namespace Word

open Text

/-! ### Words of some shape -/

/-- A whole number has no letters. -/
theorem upcase_of_isDigits (h : isDigits (upcase word) = true) : upcase word = word := by
  obtain ⟨-, hall⟩ := isDigits_iff.1 h
  apply upcase_eq_self
  intro d hd
  have hdigit := toNat_of_isDigit (hall d hd)
  omega

theorem exists_of_isFloatLiteral (h : isFloatLiteral word = true) : ∃ whole fraction,
    word = whole ++ '.' :: fraction ∧ isDigits whole = true ∧
      ∀ c ∈ fraction, c.isDigit = true := by
  have hsplit := List.takeWhile_append_dropWhile (p := (· != '.')) (l := word)
  have hhead := List.head?_dropWhile_not (· != '.') word
  unfold isFloatLiteral at h
  generalize word.takeWhile (· != '.') = whole at h hsplit
  generalize word.dropWhile (· != '.') = behind at h hsplit hhead
  cases behind with
  | nil => cases h
  | cons point fraction =>
    rw [Bool.and_eq_true, List.all_eq_true] at h
    have hpoint : point = '.' := by simpa using hhead
    exact ⟨whole, fraction, by rw [← hsplit, hpoint], h.1, h.2⟩

theorem upcase_of_isFloatLiteral (h : isFloatLiteral (upcase word) = true) :
    upcase word = word := by
  obtain ⟨whole, fraction, hsplit, hwhole, hfraction⟩ := exists_of_isFloatLiteral h
  apply upcase_eq_self
  intro d hd
  rw [hsplit, List.mem_append, List.mem_cons] at hd
  rcases hd with hd | rfl | hd
  · have hdigit := toNat_of_isDigit ((isDigits_iff.1 hwhole).2 d hd)
    omega
  · decide
  · have hdigit := toNat_of_isDigit (hfraction d hd)
    omega

/-- The mark of a base is one character, and so is the zero in front of it. -/
theorem exists_of_isMarkedLiteral {mark : Char} {isDigit : Char → Bool}
    (h : isMarkedLiteral mark isDigit (upcase word) = true) (hmark : mark = 'X' ∨ mark = 'B') :
    ∃ c digits, word = '0' :: c :: digits ∧ c.toNat < 0x80 ∧
      upcase word = '0' :: mark :: upcase digits ∧ digits ≠ [] ∧
      ∀ d ∈ upcase digits, isDigit d = true := by
  unfold isMarkedLiteral at h
  split at h
  · next letter digits hupper =>
    rw [Bool.and_eq_true, Bool.and_eq_true, beq_iff_eq, List.all_eq_true] at h
    obtain ⟨⟨rfl, hsome⟩, hall⟩ := h
    obtain ⟨tail, rfl, htail⟩ := exists_of_upcase_eq_cons hupper (by decide) (by decide)
    obtain ⟨c, rest, rfl, hascii, rfl⟩ := exists_of_upcase_eq_mark htail hmark
    refine ⟨c, rest, rfl, hascii, hupper, ?_, hall⟩
    rintro rfl
    cases hsome
  · cases h

theorem exists_of_isScalar (h : isScalar (upcase word) = true) :
    ∃ c d tail, word = c :: tail ∧ upcase word = d :: tail ∧ upcaseChar c = [d] ∧
      isLetter d = true ∧ ∀ e ∈ tail, e.isDigit = true := by
  have hcases : ∃ d rest, upcase word = d :: rest ∧ isLetter d = true ∧
      ∀ e ∈ rest, e.isDigit = true := by
    unfold isScalar at h
    split at h
    · next d hupper => exact ⟨d, [], hupper, h, nofun⟩
    · next d e hupper =>
      rw [Bool.and_eq_true] at h
      exact ⟨d, [e], hupper, h.1, by simpa using h.2⟩
    · cases h
  obtain ⟨d, rest, hupper, hletter, hdigits⟩ := hcases
  have hplain : ∀ e ∈ rest, 0 < e.toNat ∧ e.toNat < 65 := by
    intro e he
    have hdigit := toNat_of_isDigit (hdigits e he)
    omega
  obtain ⟨c, tail, rfl, hc, rfl⟩ := exists_of_upcase_eq_letter hupper hplain
  have hsame := upcase_eq_self hplain
  rw [hsame] at hupper hdigits
  exact ⟨c, d, tail, rfl, hupper, hc, hletter, hdigits⟩

end Word

end CalcLang
