import CalcLang.Proofs.Scan.Placement
import CalcLang.Proofs.Scan.Shapes
import CalcLang.Value.Literal
import Mathlib

/-! # The values of words

    A word that was classified as a number has the value of that number, and a variable has the type
    that goes by its first letter.  Words are classified by their upper-case forms but their values
    are read off the words themselves, so this holds up to two characters outside ASCII:

    * `numberOf`: the number that digits stand for.
    * `Value.Denotes`: the value of an integer, of the smallest type that holds it.
    * `denotes_readInteger?`, `exists_readReal?`: what numbers are read as.
    * `implicitFor_of_isScalar`: which type a variable has.
    * `tokens_understood`: what every token of a text is taken for. -/

namespace CalcLang

open Text Word

variable {base : Nat} {c : Char} {text word digits : List Char}

/-! ### Numbers -/

/-- The value of a digit, in bases up to sixteen. -/
def digitNumber (digit : Char) : Nat :=
  if digit.isDigit then digit.toNat - '0'.toNat else 10 + (digit.toNat - 'A'.toNat)

/-- The number that digits stand for in some base. -/
def numberOf (base : Nat) (digits : List Char) : Nat :=
  Nat.ofDigits base (digits.reverse.map digitNumber)

@[simp] theorem numberOf_nil (base : Nat) : numberOf base [] = 0 := rfl

theorem numberOf_cons (base : Nat) (c : Char) (rest : List Char) :
    numberOf base (c :: rest) = digitNumber c * base ^ rest.length + numberOf base rest := by
  unfold numberOf
  rw [List.reverse_cons, List.map_append, Nat.ofDigits_append, List.length_map, List.length_reverse,
    List.map_singleton, Nat.ofDigits_singleton, Nat.add_comm, Nat.mul_comm]

/-- The value of an integer: 32 bits wide if it fits, 64 bits wide if it fits only there, and none
    otherwise. -/
inductive Value.Denotes (n : Nat) : Option Value → Prop
  | narrow {v : Int32} (hsmall : n < 2 ^ 31) (hvalue : v.toInt = n) : Denotes n (some (.int32 v))
  | wide {v : Int64} (hlarge : 2 ^ 31 ≤ n) (hfits : n < 2 ^ 63) (hvalue : v.toInt = n) :
    Denotes n (some (.int64 v))
  | none (hlarge : 2 ^ 63 ≤ n) : Denotes n none

/-! ### Reading integers -/

/-- Digits of a base, in upper case. -/
def AreDigits (base : Nat) (digits : List Char) : Prop :=
  ∀ d ∈ digits, isHexDigit d = true ∧ digitNumber d < base

theorem areDigits_ten (h : ∀ d ∈ digits, d.isDigit = true) : AreDigits 10 digits := by
  intro d hd
  have hdigit := h d hd
  have hrange := toNat_of_isDigit hdigit
  have hzero : '0'.toNat = 48 := rfl
  unfold isHexDigit digitNumber
  rw [hdigit, if_pos rfl, hzero]
  exact ⟨rfl, by omega⟩

theorem areDigits_sixteen (h : ∀ d ∈ digits, isHexDigit d = true) : AreDigits 16 digits := by
  intro d hd
  have hrange := toNat_of_isHexDigit (h d hd)
  have hzero : '0'.toNat = 48 := rfl
  have hA : 'A'.toNat = 65 := rfl
  refine ⟨h d hd, ?_⟩
  unfold digitNumber
  split
  · next hdigit =>
    have hsmall := toNat_of_isDigit hdigit
    omega
  · omega

theorem areDigits_two (h : ∀ d ∈ digits, isBinDigit d = true) : AreDigits 2 digits := by
  intro d hd
  have hdigit := h d hd
  unfold isBinDigit at hdigit
  rw [Bool.or_eq_true, beq_iff_eq, beq_iff_eq] at hdigit
  rcases hdigit with rfl | rfl <;> decide

theorem digitValue?_eq (h : isHexDigit (asciiUpcaseChar c) = true) :
    digitValue? c = some (digitNumber (asciiUpcaseChar c)) := by
  have hdigit (d : Char) : d.isDigit = true ↔ 48 ≤ d.toNat ∧ d.toNat ≤ 57 := by
    unfold Char.isDigit
    rw [Bool.and_eq_true, decide_eq_true_eq, decide_eq_true_eq]
    exact Iff.rfl
  have hlower : ('a' ≤ c ∧ c ≤ 'f') ↔ 97 ≤ c.toNat ∧ c.toNat ≤ 102 := Iff.rfl
  have hupper : ('A' ≤ c ∧ c ≤ 'F') ↔ 65 ≤ c.toNat ∧ c.toNat ≤ 70 := Iff.rfl
  have hzero : '0'.toNat = 48 := rfl
  have hA : 'A'.toNat = 65 := rfl
  have ha : 'a'.toNat = 97 := rfl
  have hrange := toNat_of_isHexDigit h
  unfold digitValue? digitNumber
  simp only [hdigit, hlower, hupper, hzero, hA, ha]
  rcases asciiUpcaseChar_cases c with ⟨hfirst, hlast, hmoved⟩ | ⟨hother, hsame⟩
  · rw [if_neg (by omega), if_pos (by omega), if_neg (by omega)]
    congr 1
    omega
  · rw [hsame] at hrange ⊢
    by_cases hsmall : 48 ≤ c.toNat ∧ c.toNat ≤ 57
    · rw [if_pos hsmall, if_pos hsmall]
    · rw [if_neg hsmall, if_neg (by omega), if_pos (by omega), if_neg hsmall, Nat.add_comm]

theorem readDigits?_eq (h : AreDigits base (digits.map asciiUpcaseChar)) (value : Nat) :
    readDigits? base value digits =
      some (value * base ^ digits.length + numberOf base (digits.map asciiUpcaseChar)) := by
  induction digits generalizing value with
  | nil => simp [readDigits?]
  | cons c rest ih =>
    obtain ⟨⟨hdigit, hbase⟩, hrest⟩ := List.forall_mem_cons.1 h
    have hc : digitIn? base c = some (digitNumber (asciiUpcaseChar c)) := by
      unfold digitIn?
      rw [digitValue?_eq hdigit, Option.filter_some, decide_eq_true hbase, if_pos rfl]
    rw [readDigits?, hc]
    simp only
    rw [ih hrest, List.map_cons, numberOf_cons, List.length_map, List.length_cons, Nat.pow_succ]
    congr 1
    ring

/-- No digit is a sign. -/
theorem not_sign (h : AreDigits base (upcase digits)) : ∀ c ∈ digits, c ≠ '-' ∧ c ≠ '+' := by
  intro c hc
  have hupper (d : Char) (hd : d ∈ upcaseChar c) : isHexDigit d = true :=
    (h d (List.mem_flatMap.2 ⟨c, hc, hd⟩)).1
  constructor
  · rintro rfl
    have hdigit := hupper '-' (by decide)
    cases hdigit
  · rintro rfl
    have hdigit := hupper '+' (by decide)
    cases hdigit

theorem splitSign_eq (h : ∀ c ∈ text.head?, c ≠ '-' ∧ c ≠ '+') : splitSign text = (false, text) := by
  unfold splitSign
  split
  · exact absurd rfl (h '-' rfl).1
  · exact absurd rfl (h '+' rfl).2
  · rfl

theorem Value.denotes_ofInt {n : Nat} (h : n < 2 ^ 63) : Denotes n (some (ofInt n)) := by
  unfold ofInt
  rw [Int32.toInt_minValue, Int32.toInt_maxValue]
  by_cases hsmall : n < 2 ^ 31
  · rw [if_pos (by omega)]
    exact .narrow hsmall (Int32.toInt_ofInt_of_le (by omega) (by omega))
  · rw [if_neg (by omega)]
    exact .wide (by omega) h (Int64.toInt_ofInt_of_le (by omega) (by omega))

theorem exists_readNatural? (hsome : digits ≠ []) (h : ∀ c ∈ digits, c.isDigit = true) :
    ∃ n, readNatural? 10 digits = some n := by
  have hsame : digits.map asciiUpcaseChar = digits := by
    conv_rhs => rw [← List.map_id digits]
    apply List.map_congr_left
    intro c hc
    have hrange := toNat_of_isDigit (h c hc)
    rcases asciiUpcaseChar_cases c with ⟨hfirst, -⟩ | ⟨-, hsame⟩
    · omega
    · exact hsame
  unfold readNatural?
  rw [if_neg (by simpa using hsome), readDigits?_eq (by rw [hsame]; exact areDigits_ten h)]
  exact ⟨_, rfl⟩

/-- Digits have the value of the number that they stand for. -/
theorem denotes_readInteger? (hsome : digits ≠ []) (hascii : ∀ c ∈ digits, c.toNat < 0x80)
    (h : AreDigits base (upcase digits)) :
    Value.Denotes (numberOf base (upcase digits)) ((readInteger? base digits).map Value.ofInt) := by
  have hsign := splitSign_eq fun c hc => not_sign h c (List.mem_of_head? hc)
  rw [upcase_eq_map hascii] at h ⊢
  have hnatural : readNatural? base digits =
      some (numberOf base (digits.map asciiUpcaseChar)) := by
    unfold readNatural?
    rw [if_neg (by simpa using hsome), readDigits?_eq h, Nat.zero_mul, Nat.zero_add]
  unfold readInteger?
  rw [hsign]
  simp only [hnatural, Option.bind_some, Int64.toInt_minValue, Int64.toInt_maxValue]
  rw [if_neg Bool.false_ne_true]
  generalize numberOf base (digits.map asciiUpcaseChar) = n
  by_cases hfits : n < 2 ^ 63
  · rw [if_pos (by omega)]
    exact Value.denotes_ofInt hfits
  · rw [if_neg (by omega)]
    exact .none (by omega)

/-- What is no digit makes the whole text none. -/
theorem readInteger?_eq_none (hsign : ∀ c ∈ digits, c ≠ '-' ∧ c ≠ '+') (hc : c ∈ digits)
    (hnone : digitIn? base c = none) : readInteger? base digits = none := by
  have hdigits (value : Nat) : readDigits? base value digits = none := by
    clear hsign
    induction digits generalizing value with
    | nil => cases hc
    | cons first rest ih =>
      rw [readDigits?]
      rcases List.mem_cons.1 hc with rfl | hrest
      · rw [hnone]
      · split
        · exact ih hrest _
        · rfl
  unfold readInteger? readNatural?
  rw [splitSign_eq fun c hc => hsign c (List.mem_of_head? hc)]
  simp only [hdigits, ite_self, Option.bind_none]

/-! ### Reading reals -/

/-- Digits with a point among them or behind them are a real number. -/
theorem exists_readReal? (h : isFloatLiteral text = true) : ∃ x, readReal? text = some x := by
  obtain ⟨whole, fraction, rfl, hwhole, hfraction⟩ := exists_of_isFloatLiteral h
  obtain ⟨hsome, hdigits⟩ := isDigits_iff.1 hwhole
  have hunsigned : ∃ x, readUnsigned? (whole ++ '.' :: fraction) = some x := by
    have htake : (whole ++ '.' :: fraction).takeWhile Char.isDigit = whole := by
      rw [List.takeWhile_append_of_pos hdigits, List.takeWhile_cons_of_neg (by decide),
        List.append_nil]
    have hdrop : (whole ++ '.' :: fraction).dropWhile Char.isDigit = '.' :: fraction := by
      rw [List.dropWhile_append_of_pos hdigits, List.dropWhile_cons_of_neg (by decide)]
    have hall : ∀ c ∈ whole ++ fraction, c.isDigit = true :=
      List.forall_mem_append.2 ⟨hdigits, hfraction⟩
    obtain ⟨n, hn⟩ := exists_readNatural? (by simpa using fun h => absurd h hsome) hall
    unfold readUnsigned?
    rw [htake, hdrop]
    simp only [List.takeWhile_eq_self_iff.2 hfraction, List.dropWhile_eq_nil_iff.2 hfraction, hn]
    exact ⟨_, rfl⟩
  have hsign : splitSign (whole ++ '.' :: fraction) = (false, whole ++ '.' :: fraction) := by
    apply splitSign_eq
    intro c hc
    have hdigit : c.isDigit = true := by
      cases whole with
      | nil => exact absurd rfl hsome
      | cons first rest =>
        cases hc
        exact hdigits c List.mem_cons_self
    constructor <;> rintro rfl <;> cases hdigit
  -- No word that stands for a real number has a point.
  have hword (name : String) (hname : '.' ∉ name.toList) :
      String.ofList ((whole ++ '.' :: fraction).map Char.toLower) ≠ name := by
    rintro rfl
    apply hname
    rw [String.toList_ofList, List.map_append, List.map_cons]
    exact List.mem_append_right _ List.mem_cons_self
  obtain ⟨x, hx⟩ := hunsigned
  unfold readReal?
  rw [hsign]
  simp only
  rw [if_neg (not_or.2 ⟨hword "inf" (by decide), hword "infinity" (by decide)⟩),
    if_neg (hword "nan" (by decide)), hx]
  exact ⟨_, rfl⟩

/-! ### The types of variables -/

/-- The first letter of a name, behind its array mark, is one of those that stand for integers. -/
def namesInteger (name : List Char) : Bool :=
  (name.dropWhile (· == '@')).head?.any fun letter => 'I' ≤ letter && letter ≤ 'N'

theorem isIntegerInitial_eq (c : Char) :
    DataType.isIntegerInitial c = ('I' ≤ asciiUpcaseChar c && asciiUpcaseChar c ≤ 'N') := by
  have hupper (d : Char) : ('I' ≤ d && d ≤ 'N') = decide (73 ≤ d.toNat ∧ d.toNat ≤ 78) := by
    rw [Bool.decide_and]
    rfl
  have hlower (d : Char) : ('i' ≤ d && d ≤ 'n') = decide (105 ≤ d.toNat ∧ d.toNat ≤ 110) := by
    rw [Bool.decide_and]
    rfl
  unfold DataType.isIntegerInitial
  rw [hupper, hlower, hupper, ← Bool.decide_or, decide_eq_decide]
  rcases asciiUpcaseChar_cases c with ⟨hfirst, hlast, hmoved⟩ | ⟨hother, hsame⟩
  · omega
  · rw [hsame]
    omega

/-- A variable has the type that goes by its first letter in upper case, save for the dotless `ı`,
    whose upper case is an `I`. -/
theorem implicitFor_of_isScalar (h : isScalar (upcase word) = true) :
    DataType.implicitFor (String.ofList word) =
      if namesInteger (upcase word) && !word.contains 'ı' then .int32 else .real32 := by
  obtain ⟨c, d, tail, rfl, hupper, hc, hletter, hdigits⟩ := exists_of_isScalar h
  have hmark : c ≠ '@' := by
    rintro rfl
    rw [show upcaseChar '@' = ['@'] by decide] at hc
    cases hc
    cases hletter
  have hmark' : d ≠ '@' := by
    rintro rfl
    cases hletter
  have htail : tail.contains 'ı' = false := by
    rw [List.contains_eq_mem, decide_eq_false_iff_not]
    intro hmem
    have hdigit := hdigits _ hmem
    cases hdigit
  have hname : namesInteger (d :: tail) = ('I' ≤ d && d ≤ 'N') := by
    unfold namesInteger
    rw [List.dropWhile_cons_of_neg (by simpa using hmark')]
    rfl
  have htype : DataType.implicitFor (String.ofList (c :: tail)) =
      if DataType.isIntegerInitial c then .int32 else .real32 := by
    unfold DataType.implicitFor
    rw [String.toList_ofList, List.dropWhile_cons_of_neg (by simpa using hmark)]
  rw [hupper, hname, htype, List.contains_cons, htail, Bool.or_false]
  rcases upcaseChar_eq_letter hc hletter with ⟨hascii, rfl⟩ | ⟨rfl, rfl⟩ | ⟨rfl, rfl⟩
  · have hother : ('ı' == c) = false := by
      rw [beq_eq_false_iff_ne]
      rintro rfl
      exact absurd hascii (by decide)
    rw [isIntegerInitial_eq, hother, Bool.not_false, Bool.and_true]
  · decide
  · decide

theorem implicitFor_of_isArray (h : isArray (upcase word) = true) :
    DataType.implicitFor (String.ofList word) =
      if namesInteger (upcase word) && !word.contains 'ı' then .int32 else .real32 := by
  unfold isArray at h
  split at h
  · next name hupper =>
    -- The mark in front of the name changes neither side.
    obtain ⟨tail, rfl, rfl⟩ := exists_of_upcase_eq_cons hupper (by decide) (by decide)
    have hscalar := implicitFor_of_isScalar h
    unfold DataType.implicitFor at hscalar ⊢
    rw [String.toList_ofList] at hscalar ⊢
    rw [hupper]
    exact hscalar
  · cases h

/-! ### Main result -/

/-- What a word of some kind is taken for in a calculation. -/
def IsUnderstood (kind : Kind) (text : String) (value : Option Value) : Prop :=
  let upper := upcase text.toList
  match kind with
  | .literal .int => Value.Denotes (numberOf 10 upper) value
  | .literal .hex =>
    ('ﬀ' ∈ text.toList → value = none) ∧
      ('ﬀ' ∉ text.toList → Value.Denotes (numberOf 16 (upper.drop 2)) value)
  | .literal .bin => Value.Denotes (numberOf 2 (upper.drop 2)) value
  | .literal .float => ∃ x, value = some (.real64 x)
  | .var _ =>
    DataType.implicitFor text =
      if namesInteger upper && !text.toList.contains 'ı' then .int32 else .real32
  | _ => True

theorem dropBytes?_two (hascii : c.toNat < 0x80) (rest : List Char) :
    dropBytes? 2 ('0' :: c :: rest) = some rest := by
  have hsize : c.utf8Size = 1 := by
    unfold Char.utf8Size
    have hsmall : c.val ≤ 0x7f := by
      rw [UInt32.le_iff_toNat_le]
      show c.toNat ≤ 127
      omega
    exact if_pos hsmall
  have hzero : '0'.utf8Size = 1 := rfl
  simp [dropBytes?, hsize, hzero]

theorem understood_int (h : isDigits (upcase text) = true) :
    Value.Denotes (numberOf 10 (upcase text)) (Value.ofLiteralText? .int text) := by
  obtain ⟨hsome, hdigits⟩ := isDigits_iff.1 h
  have hsame := upcase_of_isDigits h
  have hascii : ∀ c ∈ text, c.toNat < 0x80 := by
    intro c hc
    rw [← hsame] at hc
    have hrange := toNat_of_isDigit (hdigits c hc)
    omega
  have htext : text ≠ [] := by
    rwa [hsame] at hsome
  exact denotes_readInteger? htext hascii (areDigits_ten hdigits)

theorem understood_bin (h : isMarkedLiteral 'B' isBinDigit (upcase text) = true) :
    Value.Denotes (numberOf 2 ((upcase text).drop 2)) (Value.ofLiteralText? .bin text) := by
  obtain ⟨c, digits, rfl, hascii, hupper, hsome, hall⟩ := exists_of_isMarkedLiteral h (.inr rfl)
  have hrange : ∀ d ∈ upcase digits, 0 < d.toNat ∧ d.toNat < 65 := by
    intro d hd
    have hdigit := hall d hd
    unfold isBinDigit at hdigit
    rw [Bool.or_eq_true, beq_iff_eq, beq_iff_eq] at hdigit
    rcases hdigit with rfl | rfl <;> decide
  have hplain : ∀ c ∈ digits, c.toNat < 0x80 := by
    intro c hc
    rw [← upcase_eq_self hrange] at hc
    have hsmall := hrange c hc
    omega
  rw [hupper]
  unfold Value.ofLiteralText?
  simp only [dropBytes?_two hascii, Option.bind_some]
  exact denotes_readInteger? hsome hplain (areDigits_two hall)

theorem understood_hex (h : isMarkedLiteral 'X' isHexDigit (upcase text) = true) :
    ('ﬀ' ∈ text → Value.ofLiteralText? .hex text = none) ∧
      ('ﬀ' ∉ text →
        Value.Denotes (numberOf 16 ((upcase text).drop 2)) (Value.ofLiteralText? .hex text)) := by
  obtain ⟨c, digits, rfl, hascii, hupper, hsome, hall⟩ := exists_of_isMarkedLiteral h (.inl rfl)
  have hdigits := areDigits_sixteen hall
  have hmem : 'ﬀ' ∈ '0' :: c :: digits ↔ 'ﬀ' ∈ digits := by
    rw [List.mem_cons, List.mem_cons]
    constructor
    · rintro (hzero | rfl | hmem)
      · cases hzero
      · exact absurd hascii (by decide)
      · exact hmem
    · intro hmem
      exact .inr (.inr hmem)
  rw [hupper, hmem]
  unfold Value.ofLiteralText?
  simp only [dropBytes?_two hascii, Option.bind_some]
  constructor
  · intro hligature
    rw [readInteger?_eq_none (not_sign hdigits) hligature rfl]
    rfl
  · intro hnone
    exact denotes_readInteger? hsome (ascii_of_upcase_isHexDigit hall hnone) hdigits

/-- A classified word is taken for what its upper-case form says. -/
theorem isUnderstood_of_kind? {text : String} {kind : Kind} (h : kind? text.toList = some kind)
    (line : Nat) : IsUnderstood kind text (Value.ofToken? ⟨kind, some text, line⟩) := by
  have hshape := hasShape_of_kind? h
  cases kind with
  | literal literal =>
    cases literal with
    | int => exact understood_int hshape
    | hex => exact understood_hex hshape
    | bin => exact understood_bin hshape
    | float =>
      have hsame := upcase_of_isFloatLiteral hshape
      obtain ⟨x, hx⟩ := exists_readReal? (hsame ▸ hshape)
      refine ⟨x, ?_⟩
      show (readReal? text.toList).map Value.real64 = _
      rw [hx]
      rfl
    | char | string => trivial
  | var sort =>
    cases sort with
    | scalar =>
      have htype := implicitFor_of_isScalar hshape
      rwa [String.ofList_toList] at htype
    | array =>
      have htype := implicitFor_of_isArray hshape
      rwa [String.ofList_toList] at htype
  | _ => trivial

/-- Every number and every variable of a text is taken for what its upper-case form says, apart from
    numbers with the ligature `ﬀ` for two digits and variables with the dotless `ı`. -/
theorem tokens_understood {source : String} {tokens : List Token}
    (h : tokenize source = .ok tokens) : ∀ t ∈ tokens, t.kind.carriesText = true →
      ∃ text, t.value = some text ∧ IsUnderstood t.kind text (Value.ofToken? t) := by
  obtain ⟨body, first, rfl, -⟩ := exists_body_of_tokenize h
  have hreadable := isReadable_of_tokenize h
  intro t ht hcarries
  rcases List.mem_append.1 ht with ht | ht
  · rcases hreadable t ht with hbreak | hread
    · rw [hbreak] at hcarries
      cases hcarries
    · have hvalue := hread.value
      rw [if_pos hcarries] at hvalue
      have htoken : t = ⟨t.kind, some t.sourceText, t.line⟩ := by
        rw [← hvalue]
      refine ⟨t.sourceText, hvalue, ?_⟩
      have hunderstood := isUnderstood_of_kind? hread.kind t.line
      rw [← htoken] at hunderstood
      exact hunderstood
  · rw [List.mem_singleton.1 ht] at hcarries
    cases hcarries

/-- The largest integer of 64 bits, with its digits in both cases. -/
theorem tokens_understood_largest :
    tokenize "i -> 0X7fFFffFFffFFffFF" = .ok [⟨.var .scalar, some "i", 1⟩, ⟨.assign, none, 1⟩,
        ⟨.literal .hex, some "0X7fFFffFFffFFffFF", 1⟩, .endOfFile 1] ∧
      DataType.implicitFor "i" = .int32 ∧
      ∃ n : Int64, n.toInt = 2 ^ 63 - 1 ∧
        Value.ofToken? ⟨.literal .hex, some "0X7fFFffFFffFFffFF", 1⟩ = some (.int64 n) := by
  have htokens : tokenize "i -> 0X7fFFffFFffFFffFF" = .ok [⟨.var .scalar, some "i", 1⟩,
      ⟨.assign, none, 1⟩, ⟨.literal .hex, some "0X7fFFffFFffFFffFF", 1⟩, .endOfFile 1] := by
    cbv
  have hall := tokens_understood htokens
  refine ⟨htokens, ?_, ?_⟩
  · obtain ⟨text, hvalue, htype⟩ := hall ⟨.var .scalar, some "i", 1⟩ (by simp) rfl
    cases hvalue
    exact htype
  · obtain ⟨text, hvalue, -, hdenotes⟩ :=
      hall ⟨.literal .hex, some "0X7fFFffFFffFFffFF", 1⟩ (by simp) rfl
    cases hvalue
    have hnumber : numberOf 16 ((upcase "0X7fFFffFFffFFffFF".toList).drop 2) = 2 ^ 63 - 1 := by
      decide
    have hdigits := hdenotes (by decide)
    rw [hnumber] at hdigits
    generalize Value.ofToken? _ = value at hdigits ⊢
    cases hdigits with
    | narrow hsmall => omega
    | wide _ _ hn => exact ⟨_, hn, rfl⟩
    | none hlarge => omega

/-- The ligature is two digits of a number that has no value, and the dotless letter is the name of a
    variable that is no integer. -/
theorem foreign_not_understood :
    tokenize "0xﬀ" = .ok [⟨.literal .hex, some "0xﬀ", 1⟩, .endOfFile 1] ∧
      numberOf 16 ((upcase "0xﬀ".toList).drop 2) = 255 ∧
      ¬Value.Denotes 255 (Value.ofToken? ⟨.literal .hex, some "0xﬀ", 1⟩) ∧
      tokenize "ı" = .ok [⟨.var .scalar, some "ı", 1⟩, .endOfFile 1] ∧
      namesInteger (upcase "ı".toList) = true ∧ DataType.implicitFor "ı" = .real32 := by
  have hnone : ¬Value.Denotes 255 (Value.ofToken? ⟨.literal .hex, some "0xﬀ", 1⟩) := by
    have hvalue : Value.ofToken? ⟨.literal .hex, some "0xﬀ", 1⟩ = none := by
      cbv
    rw [hvalue]
    intro hdenotes
    cases hdenotes with
    | none hlarge => omega
  exact ⟨by cbv, by decide, hnone, by cbv, by decide, by decide⟩

end CalcLang
