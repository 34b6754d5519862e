import CalcLang.Proofs.Scan.Patterns

/-! # Words as bytes

    The bytes of a word in UTF-8, as far as classes of ASCII characters can be told by them:

    * `Word.bytes`: the bytes of a word.
    * `Word.bytes_ascii`, `Word.bytes_foreign`: a character in front is a single byte below `0x80`, or its
      bytes start with one from `0x80` on.
    * `Mirrors`: a class of bytes that stands for a class of ASCII characters.
    * `Mirrors.all_bytes`: all bytes of a word are in the one iff all characters of it are in the other.
    * `Mirrors.of_bytes_eq_cons`: a byte of such a class in front is a character of the other. -/

namespace CalcLang

variable {word rest : List Char} {c : Char} {isByte isByte' : UInt8 → Bool}
  {isChar isChar' : Char → Bool}

/-! ### Encoding -/

namespace Word

/-- The bytes of a word in UTF-8. -/
def bytes (word : List Char) : List UInt8 := word.flatMap String.utf8EncodeChar

@[simp] theorem bytes_nil : bytes [] = [] := rfl

theorem bytes_cons (c : Char) (rest : List Char) :
    bytes (c :: rest) = String.utf8EncodeChar c ++ bytes rest := rfl

theorem utf8EncodeChar_ascii (h : c.toNat < 0x80) :
    String.utf8EncodeChar c = [UInt8.ofNat c.toNat] := by
  have hcode : c.val.toNat ≤ 0x7F := Nat.le_of_lt_succ h
  unfold String.utf8EncodeChar
  exact if_pos hcode

/-- No byte of a character outside ASCII is one of ASCII. -/
theorem foreign_of_mem_utf8EncodeChar (h : 0x80 ≤ c.toNat) :
    ∀ b ∈ String.utf8EncodeChar c, 0x80 ≤ b.toNat := by
  have hcode : ¬c.val.toNat ≤ 0x7F := Nat.not_le_of_lt h
  simp only [String.utf8EncodeChar, if_neg hcode]
  split
  · simp [UInt8.toNat_ofNat']
    omega
  · split
    · simp [UInt8.toNat_ofNat']
      omega
    · simp [UInt8.toNat_ofNat']
      omega

theorem bytes_ascii (h : c.toNat < 0x80) (rest : List Char) :
    bytes (c :: rest) = UInt8.ofNat c.toNat :: bytes rest := by
  rw [bytes_cons, utf8EncodeChar_ascii h]
  rfl

theorem bytes_foreign (h : 0x80 ≤ c.toNat) (rest : List Char) :
    ∃ first behind, bytes (c :: rest) = first :: behind ∧ 0x80 ≤ first.toNat := by
  obtain ⟨first, more, hchar⟩ := List.exists_cons_of_ne_nil (String.utf8EncodeChar_ne_nil (c := c))
  have hforeign := foreign_of_mem_utf8EncodeChar h first (by simp [hchar])
  refine ⟨first, more ++ bytes rest, ?_, hforeign⟩
  rw [bytes_cons, hchar, List.cons_append]

theorem bytes_eq_nil_iff : bytes word = [] ↔ word = [] := by
  cases word with
  | nil => simp
  | cons c rest => simp [bytes_cons, String.utf8EncodeChar_ne_nil]

end Word

open Word

/-! ### Classes -/

/-- A class of bytes and a class of ASCII characters are the same. -/
structure Mirrors (isByte : UInt8 → Bool) (isChar : Char → Bool) : Prop where
  ascii : ∀ c, c.toNat < 0x80 → isByte (UInt8.ofNat c.toNat) = isChar c
  foreignByte : ∀ b, 0x80 ≤ b.toNat → isByte b = false
  foreignChar : ∀ c, 0x80 ≤ c.toNat → isChar c = false

/-- The bytes of the characters from `first` up to `last`. -/
def isByteIn (first last : Char) (b : UInt8) : Bool :=
  decide (first.toNat ≤ b.toNat) && decide (b.toNat ≤ last.toNat)

theorem mirrors_range (first : Char) {last : Char} (hlast : last.toNat < 0x80) :
    Mirrors (isByteIn first last) (fun c => decide (first ≤ c) && decide (c ≤ last)) := by
  refine ⟨?_, ?_, ?_⟩
  · intro c hc
    have hcode : (UInt8.ofNat c.toNat).toNat = c.toNat := by
      rw [UInt8.toNat_ofNat']
      omega
    unfold isByteIn
    rw [hcode]
    rfl
  · intro b hb
    have hbyte : ¬b.toNat ≤ last.toNat := by omega
    simp [isByteIn, hbyte]
  · intro c hc
    have hchar : ¬c ≤ last := by
      intro hle
      have hcode : c.toNat ≤ last.toNat := hle
      omega
    simp [hchar]

namespace Mirrors

theorem or (h : Mirrors isByte isChar) (h' : Mirrors isByte' isChar') :
    Mirrors (fun b => isByte b || isByte' b) (fun c => isChar c || isChar' c) := by
  refine ⟨?_, ?_, ?_⟩
  · intro c hc
    rw [h.ascii c hc, h'.ascii c hc]
  · intro b hb
    rw [h.foreignByte b hb, h'.foreignByte b hb]
    rfl
  · intro c hc
    rw [h.foreignChar c hc, h'.foreignChar c hc]
    rfl

/-- All bytes of a word are in a class if all characters of it are. -/
theorem all_bytes (h : Mirrors isByte isChar) (word : List Char) :
    (bytes word).all isByte = word.all isChar := by
  induction word with
  | nil => rfl
  | cons c rest ih =>
    rcases Nat.lt_or_ge c.toNat 0x80 with hc | hc
    · rw [bytes_ascii hc, List.all_cons, List.all_cons, ih, h.ascii c hc]
    · obtain ⟨first, behind, hbytes, hfirst⟩ := bytes_foreign hc rest
      rw [hbytes, List.all_cons, List.all_cons, h.foreignByte first hfirst, h.foreignChar c hc]
      rfl

/-- A character of the class is a single byte. -/
theorem exists_bytes_cons (h : Mirrors isByte isChar) (hc : isChar c = true) (rest : List Char) :
    ∃ b, isByte b = true ∧ bytes (c :: rest) = b :: bytes rest := by
  rcases Nat.lt_or_ge c.toNat 0x80 with hascii | hforeign
  · refine ⟨UInt8.ofNat c.toNat, ?_, bytes_ascii hascii rest⟩
    rw [h.ascii c hascii]
    exact hc
  · rw [h.foreignChar c hforeign] at hc
    cases hc

/-- Where the first byte of a word is in the class, so is the first character. -/
theorem of_bytes_eq_cons (h : Mirrors isByte isChar) {b : UInt8} {behind : List UInt8}
    (hb : isByte b = true) (hbytes : bytes word = b :: behind) :
    ∃ c rest, word = c :: rest ∧ isChar c = true ∧ bytes rest = behind := by
  cases word with
  | nil => cases hbytes
  | cons c rest =>
    rcases Nat.lt_or_ge c.toNat 0x80 with hc | hc
    · rw [bytes_ascii hc] at hbytes
      obtain ⟨rfl, rfl⟩ := List.cons.inj hbytes
      rw [h.ascii c hc] at hb
      exact ⟨c, rest, rfl, hb, rfl⟩
    · obtain ⟨first, more, hchar, hfirst⟩ := bytes_foreign hc rest
      rw [hchar] at hbytes
      obtain ⟨rfl, -⟩ := List.cons.inj hbytes
      rw [h.foreignByte _ hfirst] at hb
      cases hb

end Mirrors

/-- The bytes of decimal digits. -/
def isDigitByte : UInt8 → Bool := isByteIn '0' '9'

/-- The bytes of capital letters. -/
def isCapitalByte : UInt8 → Bool := isByteIn 'A' 'Z'

/-- The bytes of the digits of base sixteen, whose letters may be small ones too. -/
def isHexByte (b : UInt8) : Bool := isByteIn '0' '9' b || isByteIn 'A' 'F' b || isByteIn 'a' 'f' b

/-- The bytes of the binary digits. -/
def isBinByte : UInt8 → Bool := isByteIn '0' '1'

/-- The digits of base sixteen, whose letters may be small ones too. -/
def isHexDigitAnyCase (c : Char) : Bool := isHexDigit c || ('a' ≤ c && c ≤ 'f')

theorem mirrors_digit : Mirrors isDigitByte Char.isDigit := mirrors_range '0' (by decide)

theorem mirrors_capital : Mirrors isCapitalByte isLetter := mirrors_range 'A' (by decide)

theorem mirrors_hex : Mirrors isHexByte isHexDigitAnyCase :=
  (mirrors_digit.or (mirrors_range 'A' (by decide))).or (mirrors_range 'a' (by decide))

theorem mirrors_bin : Mirrors isBinByte isBinDigit := by
  have hclass : isBinDigit = fun c => decide ('0' ≤ c) && decide (c ≤ '1') := by
    funext c
    rw [Bool.eq_iff_iff, isBinDigit_iff, Bool.and_eq_true, decide_eq_true_eq, decide_eq_true_eq]
  rw [hclass]
  exact mirrors_range '0' (by decide)

end CalcLang
