/-!
# Padding
-/

namespace CalcLang.Text

/-- A number set flush right in a field of given width; what is longer is kept whole. -/
def flushRight (width : Nat) (n : Nat) : String :=
  let digits := toString n
  String.ofList (List.replicate (width - digits.length) ' ') ++ digits

end CalcLang.Text
