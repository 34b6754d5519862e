import CalcLang.Proofs.Scan.Bytes

/-! # Words and what recognizes them

    A word is looked up among the fixed spellings and held against the shapes of literals and variables,
    one after the other.  A shape may be read off the bytes of a word:

    * `Literal.accepts`, `Variable.accepts`: the tests of a shape by bytes.
    * `Recognizer`: the table of the fixed spellings, and one recognizer for each shape.
    * `Recognizer.candidate`: the only recognizer that may accept a word.
    * `findSome?_all`: `Word.classify` tries the recognizers in their order.
    * `classify_exact`: no two recognizers accept one word, so they may be tried in any order, and the kind
      of a word is the one that it is a spelling of or whose pattern it has. -/

namespace CalcLang

open Text Word

variable {word rest : List Char} {c : Char} {isByte : UInt8 → Bool} {isChar : Char → Bool} {kind : Kind}

/-! ### Recognizers -/

/-- One or more bytes of a class. -/
def areBytes (isByte : UInt8 → Bool) (word : List Char) : Bool :=
  !word.isEmpty && (bytes word).all isByte

/-- What stands before the first mark in a text and what stands behind it. -/
def splitOnce? (mark : Char) : List Char → Option (List Char × List Char)
  | [] => none
  | c :: rest =>
    if c = mark then some ([], rest)
    else (splitOnce? mark rest).map fun (before, behind) => (c :: before, behind)

/-- What is left of a text behind a given beginning. -/
def stripLead? : List Char → List Char → Option (List Char)
  | [], text => some text
  | _ :: _, [] => none
  | l :: lead, c :: text => if c = l then stripLead? lead text else none

/-- At least two bytes, in a text with a quote at both ends. -/
def isQuoted (word : List Char) : Bool :=
  2 ≤ (bytes word).length && word.head? == some '"' && word.getLast? == some '"'

/-- The bytes of digits before the first point of a word, and perhaps more behind it. -/
def isFloatBytes (word : List Char) : Bool :=
  match splitOnce? '.' word with
  | some (whole, fraction) =>
    areBytes isDigitByte whole && (fraction.isEmpty || areBytes isDigitByte fraction)
  | none => false

/-- The byte of a capital letter, perhaps with the one of a digit behind it. -/
def isScalarBytes : List UInt8 → Bool
  | [letter] => isCapitalByte letter
  | [letter, digit] => isCapitalByte letter && isDigitByte digit
  | _ => false

/-- Whether a word has the shape of a sort of literal, by its bytes but for the marks in it. -/
def Literal.accepts : Literal → List Char → Bool
  | .char, word => isCharLiteral word
  | .string, word => isQuoted word
  | .int, word => areBytes isDigitByte word
  | .float, word => isFloatBytes word
  | .hex, word => (stripLead? ['0', 'X'] word).any (areBytes isHexByte)
  | .bin, word => (stripLead? ['0', 'B'] word).any (areBytes isBinByte)

/-- Whether a word has the shape of a sort of variable, by its bytes but for the mark of an array. -/
def Variable.accepts : Variable → List Char → Bool
  | .scalar, word => isScalarBytes (bytes word)
  | .array, word => (stripLead? ['@'] word).any fun name => isScalarBytes (bytes name)

/-- What a word is held against: the table of the fixed spellings, or one of the eight shapes. -/
inductive Recognizer where
  | table
  | literal (sort : Literal)
  | var (sort : Variable)
  deriving DecidableEq, Repr

namespace Recognizer

/-- Every recognizer, in the order in which a word is held against them. -/
def all : List Recognizer := table :: Literal.all.map literal ++ Variable.all.map var

/-- The kind that a recognizer gives to a word, if it accepts it. -/
def kind? : Recognizer → List Char → Option Kind
  | table, word => Kind.ofSpelling? (String.ofList word)
  | literal sort, word => if sort.accepts word then some (.literal sort) else none
  | var sort, word => if sort.accepts word then some (.var sort) else none

end Recognizer

/-! ### Bytes and characters -/

theorem areBytes_eq (h : Mirrors isByte isChar) (word : List Char) :
    areBytes isByte word = (!word.isEmpty && word.all isChar) := by
  unfold areBytes
  rw [h.all_bytes]

theorem areBytes_iff (h : Mirrors isByte isChar) :
    areBytes isByte word = true ↔ word ≠ [] ∧ ∀ c ∈ word, isChar c = true := by
  rw [areBytes_eq h, Bool.and_eq_true, Bool.not_eq_true', List.isEmpty_eq_false_iff, List.all_eq_true]

theorem stripLead?_eq_some_iff {lead : List Char} :
    stripLead? lead word = some rest ↔ word = lead ++ rest := by
  induction lead generalizing word with
  | nil => simp [stripLead?]
  | cons l lead ih =>
    cases word with
    | nil => simp [stripLead?]
    | cons c word =>
      by_cases hc : c = l
      · simp [stripLead?, hc, ih]
      · simp [stripLead?, hc]

theorem any_stripLead?_iff {lead : List Char} {accepts : List Char → Bool} :
    (stripLead? lead word).any accepts = true ↔ ∃ rest, word = lead ++ rest ∧ accepts rest = true := by
  rw [Option.any_eq_true]
  simp only [stripLead?_eq_some_iff]

theorem splitOnce?_eq (mark : Char) (word : List Char) :
    splitOnce? mark word = match word.dropWhile (· != mark) with
      | [] => none
      | _ :: behind => some (word.takeWhile (· != mark), behind) := by
  induction word with
  | nil => rfl
  | cons c rest ih =>
    by_cases hc : c = mark
    · simp [splitOnce?, hc]
    · rw [splitOnce?, if_neg hc, ih]
      have hne : (c != mark) = true := bne_iff_ne.2 hc
      rw [List.dropWhile_cons_of_pos (p := (· != mark)) hne,
        List.takeWhile_cons_of_pos (p := (· != mark)) hne]
      split <;> rfl

theorem accepts_string : Literal.accepts .string word = isStringLiteral word := by
  rw [Bool.eq_iff_iff, isStringLiteral_iff]
  show isQuoted word = true ↔ _
  rw [isQuoted, Bool.and_eq_true, Bool.and_eq_true, decide_eq_true_eq, beq_iff_eq, beq_iff_eq]
  constructor
  · rintro ⟨⟨hlong, hfirst⟩, hlast⟩
    obtain ⟨before, rfl⟩ := List.getLast?_eq_some_iff.1 hlast
    cases before with
    | nil =>
      -- A single quote is a single byte.
      have hone : (bytes ([] ++ ['"'])).length = 1 := rfl
      omega
    | cons first inner =>
      have hquote : first = '"' := by simpa using hfirst
      exact ⟨inner, by rw [hquote]⟩
  · rintro ⟨inner, rfl⟩
    have hbytes : bytes ('"' :: inner ++ ['"']) = 34 :: bytes (inner ++ ['"']) :=
      bytes_ascii (by decide) _
    have hmore : bytes (inner ++ ['"']) ≠ [] := by
      rw [Ne, bytes_eq_nil_iff]
      simp
    have hlong := List.length_pos_iff.2 hmore
    refine ⟨⟨?_, rfl⟩, List.getLast?_concat⟩
    rw [hbytes, List.length_cons]
    omega

theorem accepts_int : Literal.accepts .int word = isDigits word :=
  areBytes_eq mirrors_digit word

theorem accepts_float : Literal.accepts .float word = isFloatLiteral word := by
  show isFloatBytes word = isFloatLiteral word
  unfold isFloatBytes isFloatLiteral
  rw [splitOnce?_eq]
  cases word.dropWhile (· != '.') with
  | nil => rfl
  | cons point fraction =>
    have hfraction : (fraction.isEmpty || areBytes isDigitByte fraction) =
        fraction.all Char.isDigit := by
      rw [areBytes_eq mirrors_digit]
      cases fraction <;> rfl
    show (areBytes isDigitByte _ && (fraction.isEmpty || areBytes isDigitByte fraction)) = _
    rw [hfraction, areBytes_eq mirrors_digit]
    rfl

/-- A number behind a zero and the mark of its base, by its bytes. -/
theorem any_stripLead?_eq (h : Mirrors isByte isChar) (mark : Char) (word : List Char) :
    (stripLead? ['0', mark] word).any (areBytes isByte) = isMarkedLiteral mark isChar word := by
  rw [Bool.eq_iff_iff, any_stripLead?_iff, isMarkedLiteral_iff]
  simp only [areBytes_iff h]
  exact Iff.rfl

theorem accepts_hex :
    Literal.accepts .hex word = isMarkedLiteral 'X' isHexDigitAnyCase word :=
  any_stripLead?_eq mirrors_hex 'X' word

theorem accepts_bin : Literal.accepts .bin word = isMarkedLiteral 'B' isBinDigit word :=
  any_stripLead?_eq mirrors_bin 'B' word

theorem accepts_scalar : Variable.accepts .scalar word = isScalar word := by
  rw [Bool.eq_iff_iff, isScalar_iff]
  show isScalarBytes (bytes word) = true ↔ _
  constructor
  · intro h
    unfold isScalarBytes at h
    split at h
    · next letterByte hword =>
      obtain ⟨letter, rest, rfl, hletter, hrest⟩ := mirrors_capital.of_bytes_eq_cons h hword
      rw [bytes_eq_nil_iff.1 hrest]
      exact ⟨letter, hletter, .inl rfl⟩
    · next letterByte digitByte hword =>
      rw [Bool.and_eq_true] at h
      obtain ⟨letter, behind, rfl, hletter, hbehind⟩ := mirrors_capital.of_bytes_eq_cons h.1 hword
      obtain ⟨digit, rest, rfl, hdigit, hrest⟩ := mirrors_digit.of_bytes_eq_cons h.2 hbehind
      rw [bytes_eq_nil_iff.1 hrest]
      exact ⟨letter, hletter, .inr ⟨digit, hdigit, rfl⟩⟩
    · cases h
  · rintro ⟨letter, hletter, rfl | ⟨digit, hdigit, rfl⟩⟩
    · obtain ⟨letterByte, hcapital, hword⟩ := mirrors_capital.exists_bytes_cons hletter []
      rw [hword]
      exact hcapital
    · obtain ⟨letterByte, hcapital, hword⟩ := mirrors_capital.exists_bytes_cons hletter [digit]
      obtain ⟨digitByte, hnumber, hbehind⟩ := mirrors_digit.exists_bytes_cons hdigit []
      rw [hword, hbehind]
      exact Bool.and_eq_true_iff.2 ⟨hcapital, hnumber⟩

theorem accepts_array : Variable.accepts .array word = isArray word := by
  rw [Bool.eq_iff_iff, isArray_iff]
  show (stripLead? ['@'] word).any (Variable.accepts .scalar) = true ↔ _
  rw [any_stripLead?_iff]
  simp only [accepts_scalar]
  exact Iff.rfl

/-! ### The only recognizer of a word -/

namespace Recognizer

/-- The only recognizer that may accept a word: the first character tells most of them apart, and what
    comes behind a digit the others. -/
def candidate : List Char → Recognizer
  | [] => table
  | first :: rest =>
    if first = '\'' then literal .char
    else if first = '"' then literal .string
    else if first = '@' then var .array
    else if first.isDigit then
      if rest.head? = some 'X' then literal .hex
      else if rest.head? = some 'B' then literal .bin
      else if '.' ∈ rest then literal .float
      else literal .int
    else if isScalar (first :: rest) then var .scalar
    else table

theorem candidate_of_digit (h : c.isDigit = true) (rest : List Char) : candidate (c :: rest) =
    if rest.head? = some 'X' then literal .hex
    else if rest.head? = some 'B' then literal .bin
    else if '.' ∈ rest then literal .float
    else literal .int := by
  have hne (mark : Char) (hmark : mark.isDigit = false) : c ≠ mark := by
    rintro rfl
    rw [h] at hmark
    cases hmark
  rw [candidate, if_neg (hne '\'' rfl), if_neg (hne '"' rfl), if_neg (hne '@' rfl), if_pos h]

theorem head?_ne_of_digits (h : ∀ c ∈ rest, c.isDigit = true) {mark : Char}
    (hmark : mark.isDigit = false) : rest.head? ≠ some mark := by
  intro hhead
  rw [h mark (List.mem_of_mem_head? hhead)] at hmark
  cases hmark

/-- A literal is accepted by the candidate of the word. -/
theorem candidate_of_literal {sort : Literal} (h : sort.accepts word = true) :
    candidate word = literal sort := by
  cases sort with
  | char =>
    obtain ⟨c, rfl⟩ := isCharLiteral_iff.1 h
    rfl
  | string =>
    rw [accepts_string] at h
    obtain ⟨inner, rfl⟩ := isStringLiteral_iff.1 h
    rfl
  | int =>
    rw [accepts_int] at h
    obtain ⟨hsome, hall⟩ := isDigits_iff.1 h
    obtain ⟨first, rest, rfl⟩ := List.exists_cons_of_ne_nil hsome
    obtain ⟨hfirst, hrest⟩ := List.forall_mem_cons.1 hall
    have hpoint : '.' ∉ rest := by
      intro hmem
      have hdigit := hrest _ hmem
      cases hdigit
    rw [candidate_of_digit hfirst, if_neg (head?_ne_of_digits hrest rfl),
      if_neg (head?_ne_of_digits hrest rfl), if_neg hpoint]
  | float =>
    rw [accepts_float] at h
    obtain ⟨whole, fraction, rfl, hwhole, -⟩ := isFloatLiteral_iff.1 h
    obtain ⟨hsome, hall⟩ := isDigits_iff.1 hwhole
    obtain ⟨first, more, rfl⟩ := List.exists_cons_of_ne_nil hsome
    obtain ⟨hfirst, hmore⟩ := List.forall_mem_cons.1 hall
    -- Behind the first digit comes another one, or the point.
    have hbehind (mark : Char) (hdigit : mark.isDigit = false) (hpoint : mark ≠ '.') :
        (more ++ '.' :: fraction).head? ≠ some mark := by
      cases more with
      | nil => simpa using hpoint.symm
      | cons second more =>
        show (second :: more).head? ≠ some mark
        exact head?_ne_of_digits hmore hdigit
    rw [List.cons_append, candidate_of_digit hfirst, if_neg (hbehind 'X' rfl (by decide)),
      if_neg (hbehind 'B' rfl (by decide)), if_pos (by simp)]
  | hex =>
    rw [accepts_hex] at h
    obtain ⟨digits, rfl, -⟩ := isMarkedLiteral_iff.1 h
    rfl
  | bin =>
    rw [accepts_bin] at h
    obtain ⟨digits, rfl, -⟩ := isMarkedLiteral_iff.1 h
    rfl

/-- A variable is accepted by the candidate of the word. -/
theorem candidate_of_var {sort : Variable} (h : sort.accepts word = true) :
    candidate word = var sort := by
  cases sort with
  | scalar =>
    rw [accepts_scalar] at h
    obtain ⟨letter, hletter, hword⟩ := isScalar_iff.1 h
    have hne (mark : Char) (hmark : isLetter mark = false) : letter ≠ mark := by
      rintro rfl
      rw [hletter] at hmark
      cases hmark
    have hdigit : letter.isDigit = false := by
      rw [Bool.eq_false_iff]
      intro hdigit
      have hsmall := toNat_of_isDigit hdigit
      have hlarge : 65 ≤ letter.toNat := (isLetter_iff.1 hletter).1
      omega
    obtain ⟨rest, rfl⟩ : ∃ rest, word = letter :: rest := by
      rcases hword with rfl | ⟨digit, -, rfl⟩
      · exact ⟨[], rfl⟩
      · exact ⟨[digit], rfl⟩
    rw [candidate, if_neg (hne '\'' rfl), if_neg (hne '"' rfl), if_neg (hne '@' rfl), hdigit,
      if_neg Bool.false_ne_true, if_pos h]
  | array =>
    rw [accepts_array] at h
    obtain ⟨name, rfl, -⟩ := isArray_iff.1 h
    rfl

/-- A fixed spelling is accepted by no other recognizer. -/
theorem candidate_of_isSpelled (h : kind.IsSpelled word) : candidate word = table := by
  have hsymbols : ∀ kind ∈ Kind.all, ∀ symbol ∈ kind.symbol?, candidate symbol.toList = table := by
    decide +kernel
  rcases h with h | ⟨-, rfl⟩ | ⟨-, rfl⟩
  · have htable := hsymbols kind kind.mem_all _ h
    rwa [String.toList_ofList] at htable
  · decide
  · decide

theorem kind?_literal_eq_some_iff {sort : Literal} : (literal sort).kind? word = some kind ↔
    sort.accepts word = true ∧ kind = .literal sort := by
  unfold kind?
  rw [Option.ite_none_right_eq_some, Option.some.injEq]
  exact and_congr_right fun _ => eq_comm

theorem kind?_var_eq_some_iff {sort : Variable} : (var sort).kind? word = some kind ↔
    sort.accepts word = true ∧ kind = .var sort := by
  unfold kind?
  rw [Option.ite_none_right_eq_some, Option.some.injEq]
  exact and_congr_right fun _ => eq_comm

/-- Whatever accepts a word is the candidate. -/
theorem eq_candidate {recognizer : Recognizer} (h : recognizer.kind? word = some kind) :
    recognizer = candidate word := by
  cases recognizer with
  | table => exact (candidate_of_isSpelled (Kind.ofSpelling?_eq_some_iff.1 h)).symm
  | literal sort => exact (candidate_of_literal (kind?_literal_eq_some_iff.1 h).1).symm
  | var sort => exact (candidate_of_var (kind?_var_eq_some_iff.1 h).1).symm

theorem mem_all (recognizer : Recognizer) : recognizer ∈ all := by
  cases recognizer with
  | table => decide
  | literal sort => cases sort <;> decide
  | var sort => cases sort <;> decide

/-- What some recognizer gives to a word is what the first one that accepts it gives, in any order. -/
theorem findSome?_eq_some_iff {order : List Recognizer} (horder : ∀ r, r ∈ order) :
    order.findSome? (·.kind? word) = some kind ↔ ∃ r : Recognizer, r.kind? word = some kind := by
  constructor
  · intro h
    obtain ⟨r, -, hr⟩ := List.exists_of_findSome?_eq_some h
    exact ⟨r, hr⟩
  · intro ⟨r, hr⟩
    cases hfound : order.findSome? (·.kind? word) with
    | none =>
      have hnone := List.findSome?_eq_none_iff.1 hfound r (horder r)
      rw [hr] at hnone
      cases hnone
    | some found =>
      -- The one that was found is the same recognizer.
      obtain ⟨r', -, hr'⟩ := List.exists_of_findSome?_eq_some hfound
      rw [eq_candidate hr', ← eq_candidate hr, hr] at hr'
      exact hr'.symm

end Recognizer

/-! ### Upper-cased words -/

/-- There are no small letters in an upper-cased word. -/
theorem Text.not_small_of_mem_upcase {d : Char} (h : d ∈ upcase word) :
    ¬(97 ≤ d.toNat ∧ d.toNat ≤ 122) := by
  obtain ⟨c, -, hd⟩ := List.mem_flatMap.1 h
  rcases Nat.lt_or_ge c.toNat 0x80 with hascii | hforeign
  · rw [upcaseChar_ascii hascii, List.mem_singleton] at hd
    rw [hd]
    rcases asciiUpcaseChar_cases c with ⟨hfirst, hlast, hmoved⟩ | ⟨hother, hsame⟩
    · omega
    · rw [hsame]
      omega
  · rcases upcaseChar_foreign hforeign with ⟨codes, hentry, hupper⟩ | ⟨e, hupper, he⟩
    · have htable : ∀ entry ∈ CaseTable.expansions, ∀ code ∈ entry.2,
          ¬(97 ≤ (Char.ofNat code).toNat ∧ (Char.ofNat code).toNat ≤ 122) := by
        decide +kernel
      rw [hupper] at hd
      obtain ⟨code, hcode, rfl⟩ := List.mem_map.1 hd
      exact htable _ hentry code hcode
    · rw [hupper, List.mem_singleton] at hd
      rw [hd]
      rcases he with ⟨-, rfl⟩ | ⟨-, rfl⟩ | hlarge | rfl
      · decide
      · decide
      · omega
      · decide

/-- Where letters are capital, the tests by bytes are the tests by characters. -/
theorem Literal.accepts_upcase (sort : Literal) (word : List Char) :
    sort.accepts (upcase word) = sort.fits (upcase word) := by
  cases sort with
  | char => rfl
  | string => exact accepts_string
  | int => exact accepts_int
  | float => exact accepts_float
  | hex =>
    show Literal.accepts .hex (upcase word) = isMarkedLiteral 'X' isHexDigit (upcase word)
    rw [accepts_hex, Bool.eq_iff_iff, isMarkedLiteral_iff, isMarkedLiteral_iff]
    constructor
    · rintro ⟨digits, hword, hsome, hall⟩
      refine ⟨digits, hword, hsome, ?_⟩
      intro c hc
      have hin : c ∈ upcase word := by
        rw [hword]
        exact List.mem_cons_of_mem _ (List.mem_cons_of_mem _ hc)
      have hcapital := Text.not_small_of_mem_upcase hin
      rcases Bool.or_eq_true_iff.1 (hall c hc) with hdigit | hsmall
      · exact hdigit
      · rw [Bool.and_eq_true, decide_eq_true_eq, decide_eq_true_eq] at hsmall
        have hfirst : 97 ≤ c.toNat := hsmall.1
        have hlast : c.toNat ≤ 102 := hsmall.2
        omega
    · rintro ⟨digits, hword, hsome, hall⟩
      refine ⟨digits, hword, hsome, ?_⟩
      intro c hc
      exact Bool.or_eq_true_iff.2 (.inl (hall c hc))
  | bin => exact accepts_bin

theorem Variable.accepts_eq (sort : Variable) (word : List Char) :
    sort.accepts word = sort.fits word := by
  cases sort with
  | scalar => exact accepts_scalar
  | array => exact accepts_array

/-- Classification tries the recognizers in their order. -/
theorem findSome?_all (word : List Char) :
    Recognizer.all.findSome? (·.kind? (upcase word)) = classify (upcase word) := by
  have hliteral (sort : Literal) : (Recognizer.literal sort).kind? (upcase word) =
      if sort.fits (upcase word) then some (.literal sort) else none := by
    rw [← sort.accepts_upcase]
    rfl
  have hvar (sort : Variable) : (Recognizer.var sort).kind? (upcase word) =
      if sort.fits (upcase word) then some (.var sort) else none := by
    rw [← sort.accepts_eq]
    rfl
  have hnext (r : Recognizer) (later : List Recognizer) (fits : Bool) (kind : Kind)
      (h : r.kind? (upcase word) = if fits then some kind else none) :
      (r :: later).findSome? (·.kind? (upcase word)) =
        if fits then some kind else later.findSome? (·.kind? (upcase word)) := by
    rw [List.findSome?_cons, h]
    cases fits <;> rfl
  have hshapes : (Literal.all.map Recognizer.literal ++ Variable.all.map Recognizer.var).findSome?
      (·.kind? (upcase word)) = shape? (upcase word) := by
    simp only [Literal.all, Variable.all, List.map_cons, List.map_nil, List.cons_append,
      List.nil_append]
    rw [hnext _ _ _ _ (hliteral .char), hnext _ _ _ _ (hliteral .string), hnext _ _ _ _ (hliteral .int),
      hnext _ _ _ _ (hliteral .float), hnext _ _ _ _ (hliteral .hex), hnext _ _ _ _ (hliteral .bin),
      hnext _ _ _ _ (hvar .scalar), hnext _ _ _ _ (hvar .array)]
    rfl
  unfold classify
  rw [← hshapes]
  show List.findSome? _ (Recognizer.table :: _) = Option.or (Recognizer.table.kind? (upcase word)) _
  rw [List.findSome?_cons]
  cases Recognizer.table.kind? (upcase word) <;> rfl

/-- A recognizer gives a kind to a word in capital letters if it is a spelling of the kind or has its
    pattern. -/
theorem exists_kind?_iff : (∃ r : Recognizer, r.kind? (upcase word) = some kind) ↔
    kind.IsSpelled (upcase word) ∨ upcase word ∈ kind.pattern := by
  constructor
  · rintro ⟨r, hr⟩
    cases r with
    | table => exact .inl (Kind.ofSpelling?_eq_some_iff.1 hr)
    | literal sort =>
      obtain ⟨haccepts, rfl⟩ := Recognizer.kind?_literal_eq_some_iff.1 hr
      rw [sort.accepts_upcase, sort.fits_iff] at haccepts
      exact .inr haccepts
    | var sort =>
      obtain ⟨haccepts, rfl⟩ := Recognizer.kind?_var_eq_some_iff.1 hr
      rw [sort.accepts_eq, sort.fits_iff] at haccepts
      exact .inr haccepts
  · rintro (h | h)
    · exact ⟨.table, Kind.ofSpelling?_eq_some_iff.2 h⟩
    · cases kind with
      | literal sort =>
        refine ⟨.literal sort, Recognizer.kind?_literal_eq_some_iff.2 ⟨?_, rfl⟩⟩
        rw [sort.accepts_upcase, sort.fits_iff]
        exact h
      | var sort =>
        refine ⟨.var sort, Recognizer.kind?_var_eq_some_iff.2 ⟨?_, rfl⟩⟩
        rw [sort.accepts_eq, sort.fits_iff]
        exact h
      | _ => exact absurd h (Language.notMem_zero _)

/-! ### Main result -/

/-- No two recognizers accept one word, so a word is classified the same in whatever order they are tried.
    The kind of a word in capital letters is the one that it is a spelling of, or whose pattern it
    has. -/
theorem classify_exact (word : List Char) :
    (∀ r r' : Recognizer, (r.kind? word).isSome → (r'.kind? word).isSome → r = r') ∧
      (∀ order order' : List Recognizer, (∀ r, r ∈ order) → (∀ r, r ∈ order') →
        order.findSome? (·.kind? word) = order'.findSome? (·.kind? word)) ∧
      Recognizer.all.findSome? (·.kind? (upcase word)) = classify (upcase word) ∧
      ∀ kind, classify (upcase word) = some kind ↔
        kind.IsSpelled (upcase word) ∨ upcase word ∈ kind.pattern := by
  refine ⟨?_, ?_, findSome?_all word, ?_⟩
  · intro r r' hr hr'
    obtain ⟨kind, hkind⟩ := Option.isSome_iff_exists.1 hr
    obtain ⟨kind', hkind'⟩ := Option.isSome_iff_exists.1 hr'
    rw [Recognizer.eq_candidate hkind, Recognizer.eq_candidate hkind']
  · intro order order' horder horder'
    ext kind
    rw [Recognizer.findSome?_eq_some_iff horder, Recognizer.findSome?_eq_some_iff horder']
  · intro kind
    rw [← findSome?_all, Recognizer.findSome?_eq_some_iff Recognizer.mem_all, exists_kind?_iff]

/-- The word `0xff` is a number in base sixteen, also where the variables are tried first. -/
theorem classify_exact_reversed :
    classify (upcase "0xff".toList) = some (.literal .hex) ∧
      Recognizer.all.reverse.findSome? (·.kind? (upcase "0xff".toList)) = some (.literal .hex) := by
  have hpattern : upcase "0xff".toList ∈ (Kind.literal .hex).pattern :=
    (Literal.fits_iff .hex).1 (by decide)
  obtain ⟨-, -, hfirst, hkinds⟩ := classify_exact "0xff".toList
  have hkind := (hkinds (.literal .hex)).2 (.inr hpattern)
  refine ⟨hkind, ?_⟩
  obtain ⟨-, horders, -⟩ := classify_exact (upcase "0xff".toList)
  have hreversed (r : Recognizer) : r ∈ Recognizer.all.reverse :=
    List.mem_reverse.2 (Recognizer.mem_all r)
  rw [horders _ _ hreversed Recognizer.mem_all, hfirst, hkind]

end CalcLang
