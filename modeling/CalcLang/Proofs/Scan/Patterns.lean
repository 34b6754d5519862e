import CalcLang.Proofs.Scan.CharLiterals
import Mathlib.Computability.Language

/-! # Patterns of words

    The shapes of literals and variables are regular languages, and the tests of a shape are held against
    them:

    * `Pattern.one`, `Pattern.range`, `Pattern.text`: the languages that patterns are put together from.
    * `Literal.pattern`, `Variable.pattern`: the pattern of each shape.
    * `Literal.fits_iff`, `Variable.fits_iff`: the test of a shape accepts the words of its pattern.
    * `Kind.IsSpelled`: the texts that are spellings of a kind.
    * `Kind.ofSpelling?_eq_some_iff`: a text is found among the fixed spellings of one kind at most. -/

namespace CalcLang

open scoped Computability

variable {word : List Char} {language : Language Char} {spelling : String} {kind : Kind}
  {property other : Char → Prop}

/-! ### Languages -/

namespace Pattern

/-- One character that has a property. -/
def one (property : Char → Prop) : Language Char := {word | ∃ c, property c ∧ word = [c]}

/-- One character, whichever it is. -/
def anyChar : Language Char := one fun _ => True

/-- One character from `first` up to `last`. -/
def range (first last : Char) : Language Char := one fun c => first ≤ c ∧ c ≤ last

/-- A given text. -/
def text (spelling : String) : Language Char := {spelling.toList}

theorem mem_one : word ∈ one property ↔ ∃ c, property c ∧ word = [c] := Iff.rfl

theorem one_add_one : one property + one other = one fun c => property c ∨ other c := by
  ext word
  rw [Language.mem_add, mem_one, mem_one, mem_one]
  constructor
  · rintro (⟨c, hc, rfl⟩ | ⟨c, hc, rfl⟩)
    · exact ⟨c, .inl hc, rfl⟩
    · exact ⟨c, .inr hc, rfl⟩
  · rintro ⟨c, hc | hc, rfl⟩
    · exact .inl ⟨c, hc, rfl⟩
    · exact .inr ⟨c, hc, rfl⟩

/-- Any number of characters that have a property. -/
theorem mem_kstar_one : word ∈ (one property)∗ ↔ ∀ c ∈ word, property c := by
  rw [Language.mem_kstar]
  constructor
  · rintro ⟨pieces, rfl, hpieces⟩ c hc
    obtain ⟨piece, hpiece, hin⟩ := List.mem_flatten.1 hc
    obtain ⟨d, hd, rfl⟩ := mem_one.1 (hpieces piece hpiece)
    rw [List.mem_singleton.1 hin]
    exact hd
  · intro h
    refine ⟨word.map fun c => [c], (List.flatMap_singleton' word).symm, ?_⟩
    intro piece hpiece
    obtain ⟨c, hc, rfl⟩ := List.mem_map.1 hpiece
    exact ⟨c, h c hc, rfl⟩

/-- One or more characters that have a property. -/
theorem mem_plus_one :
    word ∈ one property * (one property)∗ ↔ word ≠ [] ∧ ∀ c ∈ word, property c := by
  rw [Language.mem_mul]
  constructor
  · rintro ⟨-, ⟨c, hc, rfl⟩, rest, hrest, rfl⟩
    exact ⟨List.cons_ne_nil _ _, List.forall_mem_cons.2 ⟨hc, mem_kstar_one.1 hrest⟩⟩
  · rintro ⟨hsome, h⟩
    obtain ⟨c, rest, rfl⟩ := List.exists_cons_of_ne_nil hsome
    obtain ⟨hc, hrest⟩ := List.forall_mem_cons.1 h
    exact ⟨[c], ⟨c, hc, rfl⟩, rest, mem_kstar_one.2 hrest, rfl⟩

theorem mem_text_mul : word ∈ text spelling * language ↔
    ∃ rest ∈ language, word = spelling.toList ++ rest := by
  rw [Language.mem_mul]
  constructor
  · rintro ⟨-, rfl, rest, hrest, rfl⟩
    exact ⟨rest, hrest, rfl⟩
  · rintro ⟨rest, hrest, rfl⟩
    exact ⟨_, rfl, rest, hrest, rfl⟩

/-- A digit. -/
def digit : Language Char := range '0' '9'

/-- A capital letter. -/
def capital : Language Char := range 'A' 'Z'

/-- A digit of base sixteen, with capital letters. -/
def hexDigit : Language Char := range '0' '9' + range 'A' 'F'

/-- A digit of base two. -/
def binDigit : Language Char := range '0' '1'

end Pattern

open Pattern

/-- What a literal looks like. -/
def Literal.pattern : Literal → Language Char
  | .char => text "'" * anyChar * text "'"
  | .string => text "\"" * anyChar∗ * text "\""
  | .int => digit * digit∗
  | .float => digit * digit∗ * text "." * digit∗
  | .hex => text "0X" * (hexDigit * hexDigit∗)
  | .bin => text "0B" * (binDigit * binDigit∗)

/-- What a variable looks like. -/
def Variable.pattern : Variable → Language Char
  | .scalar => capital * (1 + digit)
  | .array => text "@" * (capital * (1 + digit))

/-- What a word of a kind looks like, for the kinds without a spelling. -/
def Kind.pattern : Kind → Language Char
  | .literal l => l.pattern
  | .var v => v.pattern
  | _ => 0

/-! ### Tests -/

/-- The test for a sort of literal. -/
def Literal.fits : Literal → List Char → Bool
  | .char => Word.isCharLiteral
  | .string => Word.isStringLiteral
  | .int => Word.isDigits
  | .float => Word.isFloatLiteral
  | .hex => Word.isMarkedLiteral 'X' Word.isHexDigit
  | .bin => Word.isMarkedLiteral 'B' Word.isBinDigit

/-- The test for a sort of variable. -/
def Variable.fits : Variable → List Char → Bool
  | .scalar => Word.isScalar
  | .array => Word.isArray

namespace Word

theorem isDigit_iff {c : Char} : c.isDigit = true ↔ '0' ≤ c ∧ c ≤ '9' := by
  unfold Char.isDigit
  rw [Bool.and_eq_true, decide_eq_true_eq, decide_eq_true_eq]
  exact Iff.rfl

theorem isLetter_iff {c : Char} : isLetter c = true ↔ 'A' ≤ c ∧ c ≤ 'Z' := by
  unfold isLetter
  rw [Bool.and_eq_true, decide_eq_true_eq, decide_eq_true_eq]

theorem isHexDigit_iff {c : Char} :
    isHexDigit c = true ↔ ('0' ≤ c ∧ c ≤ '9') ∨ ('A' ≤ c ∧ c ≤ 'F') := by
  unfold isHexDigit
  rw [Bool.or_eq_true, isDigit_iff, Bool.and_eq_true, decide_eq_true_eq, decide_eq_true_eq]

theorem isBinDigit_iff {c : Char} : isBinDigit c = true ↔ '0' ≤ c ∧ c ≤ '1' := by
  unfold isBinDigit
  rw [Bool.or_eq_true, beq_iff_eq, beq_iff_eq]
  constructor
  · rintro (rfl | rfl) <;> decide
  · intro ⟨hfirst, hlast⟩
    -- No character is between the two.
    have hlow : 48 ≤ c.toNat := hfirst
    have hhigh : c.toNat ≤ 49 := hlast
    rcases Nat.lt_or_ge 48 c.toNat with h | h
    · have hcode : c.toNat = ('1' : Char).toNat := Nat.le_antisymm hhigh h
      exact .inr (Char.toNat_inj.1 hcode)
    · have hcode : c.toNat = ('0' : Char).toNat := Nat.le_antisymm h hlow
      exact .inl (Char.toNat_inj.1 hcode)

theorem isStringLiteral_iff : isStringLiteral word = true ↔ ∃ inner, word = '"' :: inner ++ ['"'] := by
  constructor
  · intro h
    unfold isStringLiteral at h
    split at h
    · next rest =>
      obtain ⟨inner, rfl⟩ := List.getLast?_eq_some_iff.1 (beq_iff_eq.1 h)
      exact ⟨inner, rfl⟩
    · cases h
  · rintro ⟨inner, rfl⟩
    simp [isStringLiteral]

theorem isFloatLiteral_iff : isFloatLiteral word = true ↔ ∃ whole fraction,
    word = whole ++ '.' :: fraction ∧ isDigits whole = true ∧ ∀ c ∈ fraction, c.isDigit = true := by
  constructor
  · exact exists_of_isFloatLiteral
  · rintro ⟨whole, fraction, rfl, hwhole, hfraction⟩
    -- The point is the first one, since none of the digits before it is a point.
    have hbefore : ∀ c ∈ whole, (c != '.') = true := by
      intro c hc
      rw [bne_iff_ne]
      rintro rfl
      have hdigit := (isDigits_iff.1 hwhole).2 _ hc
      cases hdigit
    unfold isFloatLiteral
    rw [List.dropWhile_append_of_pos hbefore, List.takeWhile_append_of_pos hbefore]
    simpa [hwhole] using hfraction

theorem isMarkedLiteral_iff {mark : Char} {isDigit : Char → Bool} :
    isMarkedLiteral mark isDigit word = true ↔
      ∃ digits, word = '0' :: mark :: digits ∧ digits ≠ [] ∧ ∀ c ∈ digits, isDigit c = true := by
  constructor
  · intro h
    unfold isMarkedLiteral at h
    split at h
    · next letter digits =>
      rw [Bool.and_eq_true, Bool.and_eq_true, beq_iff_eq, Bool.not_eq_true', List.isEmpty_eq_false_iff,
        List.all_eq_true] at h
      obtain ⟨⟨rfl, hsome⟩, hall⟩ := h
      exact ⟨digits, rfl, hsome, hall⟩
    · cases h
  · rintro ⟨digits, rfl, hsome, hall⟩
    simpa [isMarkedLiteral, hsome] using hall

theorem isScalar_iff : isScalar word = true ↔ ∃ letter, isLetter letter = true ∧
    (word = [letter] ∨ ∃ digit, digit.isDigit = true ∧ word = [letter, digit]) := by
  constructor
  · intro h
    unfold isScalar at h
    split at h
    · next letter => exact ⟨letter, h, .inl rfl⟩
    · next letter digit =>
      rw [Bool.and_eq_true] at h
      exact ⟨letter, h.1, .inr ⟨digit, h.2, rfl⟩⟩
    · cases h
  · rintro ⟨letter, hletter, rfl | ⟨digit, hdigit, rfl⟩⟩
    · exact hletter
    · simp [isScalar, hletter, hdigit]

theorem isArray_iff : isArray word = true ↔ ∃ name, word = '@' :: name ∧ isScalar name = true := by
  constructor
  · intro h
    unfold isArray at h
    split at h
    · next name => exact ⟨name, rfl, h⟩
    · cases h
  · rintro ⟨name, rfl, h⟩
    exact h

theorem isDigits_iff_mem : isDigits word = true ↔ word ∈ digit * digit∗ := by
  rw [isDigits_iff]
  simp only [isDigit_iff]
  exact mem_plus_one.symm

theorem isScalar_iff_mem : isScalar word = true ↔ word ∈ capital * (1 + digit) := by
  rw [isScalar_iff, Language.mem_mul]
  constructor
  · rintro ⟨letter, hletter, rfl | ⟨number, hnumber, rfl⟩⟩
    · exact ⟨[letter], ⟨letter, isLetter_iff.1 hletter, rfl⟩, [], .inl rfl, rfl⟩
    · exact ⟨[letter], ⟨letter, isLetter_iff.1 hletter, rfl⟩, [number],
        .inr ⟨number, isDigit_iff.1 hnumber, rfl⟩, rfl⟩
  · rintro ⟨-, ⟨letter, hletter, rfl⟩, -, rfl | ⟨number, hnumber, rfl⟩, rfl⟩
    · exact ⟨letter, isLetter_iff.2 hletter, .inl rfl⟩
    · exact ⟨letter, isLetter_iff.2 hletter, .inr ⟨number, isDigit_iff.2 hnumber, rfl⟩⟩

end Word

open Word

/-- The test for a sort of literal accepts the words of its pattern. -/
theorem Literal.fits_iff (sort : Literal) : sort.fits word = true ↔ word ∈ sort.pattern := by
  cases sort with
  | char =>
    show isCharLiteral word = true ↔ word ∈ text "'" * anyChar * text "'"
    rw [isCharLiteral_iff, mul_assoc, mem_text_mul]
    constructor
    · rintro ⟨c, rfl⟩
      exact ⟨[c, '\''], ⟨[c], ⟨c, trivial, rfl⟩, ['\''], rfl, rfl⟩, rfl⟩
    · rintro ⟨-, ⟨-, ⟨c, -, rfl⟩, -, rfl, rfl⟩, rfl⟩
      exact ⟨c, rfl⟩
  | string =>
    show isStringLiteral word = true ↔ word ∈ text "\"" * anyChar∗ * text "\""
    rw [isStringLiteral_iff, mul_assoc, mem_text_mul]
    constructor
    · rintro ⟨inner, rfl⟩
      exact ⟨inner ++ ['"'], ⟨inner, mem_kstar_one.2 fun _ _ => trivial, ['"'], rfl, rfl⟩, rfl⟩
    · rintro ⟨-, ⟨inner, -, -, rfl, rfl⟩, rfl⟩
      exact ⟨inner, rfl⟩
  | int => exact isDigits_iff_mem
  | float =>
    show isFloatLiteral word = true ↔ word ∈ digit * digit∗ * text "." * digit∗
    rw [isFloatLiteral_iff, mul_assoc _ (text "."), Language.mem_mul]
    constructor
    · rintro ⟨whole, fraction, rfl, hwhole, hfraction⟩
      refine ⟨whole, isDigits_iff_mem.1 hwhole, '.' :: fraction, mem_text_mul.2 ⟨fraction, ?_, rfl⟩, rfl⟩
      exact mem_kstar_one.2 fun c hc => isDigit_iff.1 (hfraction c hc)
    · rintro ⟨whole, hwhole, behind, hbehind, rfl⟩
      obtain ⟨fraction, hfraction, rfl⟩ := mem_text_mul.1 hbehind
      refine ⟨whole, fraction, rfl, isDigits_iff_mem.2 hwhole, ?_⟩
      intro c hc
      exact isDigit_iff.2 (mem_kstar_one.1 hfraction c hc)
  | hex =>
    show isMarkedLiteral 'X' isHexDigit word = true ↔ word ∈ text "0X" * (hexDigit * hexDigit∗)
    rw [isMarkedLiteral_iff, mem_text_mul, hexDigit, range, range, one_add_one]
    simp only [isHexDigit_iff, mem_plus_one]
    constructor
    · rintro ⟨digits, rfl, hdigits⟩
      exact ⟨digits, hdigits, rfl⟩
    · rintro ⟨digits, hdigits, rfl⟩
      exact ⟨digits, rfl, hdigits⟩
  | bin =>
    show isMarkedLiteral 'B' isBinDigit word = true ↔ word ∈ text "0B" * (binDigit * binDigit∗)
    rw [isMarkedLiteral_iff, mem_text_mul, binDigit, range]
    simp only [isBinDigit_iff, mem_plus_one]
    constructor
    · rintro ⟨digits, rfl, hdigits⟩
      exact ⟨digits, hdigits, rfl⟩
    · rintro ⟨digits, hdigits, rfl⟩
      exact ⟨digits, rfl, hdigits⟩

/-- The test for a sort of variable accepts the words of its pattern. -/
theorem Variable.fits_iff (sort : Variable) : sort.fits word = true ↔ word ∈ sort.pattern := by
  cases sort with
  | scalar => exact isScalar_iff_mem
  | array =>
    show isArray word = true ↔ word ∈ text "@" * (capital * (1 + digit))
    rw [isArray_iff, mem_text_mul]
    constructor
    · rintro ⟨name, rfl, hname⟩
      exact ⟨name, isScalar_iff_mem.1 hname, rfl⟩
    · rintro ⟨name, hname, rfl⟩
      exact ⟨name, rfl, isScalar_iff_mem.2 hname⟩

/-! ### Spellings -/

/-- A text is the symbol of a kind, or the other spelling of one of the two kinds that have another. -/
def Kind.IsSpelled (kind : Kind) (word : List Char) : Prop :=
  kind.symbol? = some (String.ofList word) ∨
    kind = .keyword .label ∧ word = "LABEL".toList ∨
      kind = .keyword .dispStr ∧ word = "DISP_STR".toList

/-- A text is found among the fixed spellings as the kind that it is a spelling of. -/
theorem Kind.ofSpelling?_eq_some_iff :
    Kind.ofSpelling? (String.ofList word) = some kind ↔ kind.IsSpelled word := by
  have hfound : ∀ kind ∈ Kind.all, ∀ symbol ∈ kind.symbol?, ofSpelling? symbol = some kind := by
    decide +kernel
  have hword (spelling : String) (h : spelling = String.ofList word) : word = spelling.toList := by
    rw [h, String.toList_ofList]
  constructor
  · intro h
    unfold ofSpelling? at h
    rcases Option.or_eq_some_iff.1 h with h | ⟨-, h⟩
    · have hsymbol := List.find?_some h
      exact .inl (by simpa using hsymbol)
    · obtain ⟨before, after, hentry, -⟩ := List.lookup_eq_some_iff.1 h
      have hmem : (String.ofList word, kind) ∈ alternateSpellings := by
        rw [hentry]
        simp
      simp only [alternateSpellings, List.mem_cons, Prod.mk.injEq, List.not_mem_nil, or_false] at hmem
      rcases hmem with ⟨hspelling, rfl⟩ | ⟨hspelling, rfl⟩
      · exact .inr (.inl ⟨rfl, hword _ hspelling.symm⟩)
      · exact .inr (.inr ⟨rfl, hword _ hspelling.symm⟩)
  · rintro (h | ⟨rfl, rfl⟩ | ⟨rfl, rfl⟩)
    · exact hfound kind kind.mem_all _ h
    · decide
    · decide

end CalcLang
