import CalcLang.Text.CaseTable

/-!
# Upper-casing

Full Unicode upper-casing, character by character and without regard to context.  A character may
grow: `ß` becomes `SS`.

* `upcaseChar`: the upper-case form of one character.
* `upcase`: the upper-case form of a text.
* `asciiUpcaseChar`: the same for the twenty-six ASCII letters only.
-/

namespace CalcLang.Text

/-- Maps `a` … `z` to `A` … `Z` and keeps every other character. -/
def asciiUpcaseChar (c : Char) : Char :=
  if 'a' ≤ c ∧ c ≤ 'z' then Char.ofNat (c.toNat - 32) else c

/-- The upper-case form of one character.  ASCII characters need no table. -/
def upcaseChar (c : Char) : List Char :=
  if c.toNat < 0x80 then
    [asciiUpcaseChar c]
  else
    match CaseTable.expansions.lookup c.toNat with
    | some codes => codes.map Char.ofNat
    | none =>
      match CaseTable.runs.find? (·.covers c.toNat) with
      | some run => [Char.ofNat (run.apply c.toNat)]
      | none => [c]

/-- The upper-case form of a text is the upper-case forms of its characters in order. -/
def upcase (text : List Char) : List Char :=
  text.flatMap upcaseChar

@[simp] theorem upcase_nil : upcase [] = [] := rfl

@[simp] theorem upcase_cons (c : Char) (text : List Char) :
    upcase (c :: text) = upcaseChar c ++ upcase text := rfl

@[simp] theorem upcase_append (s t : List Char) : upcase (s ++ t) = upcase s ++ upcase t := by
  simp [upcase]

end CalcLang.Text
