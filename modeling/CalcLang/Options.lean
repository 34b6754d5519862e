import CalcLang.Token.Vocabulary

/-!
# Options

How a program is read: the order in which operators are folded, what happens to tokens that start no
statement, whether a title is required, and whether reading is traced.
-/

namespace CalcLang

/-- The order in which the two tiers of operators are folded. -/
inductive Precedence where
  /-- `*` and `/` bind tighter than `+` and `-`. -/
  | standard
  /-- `+` and `-` bind tighter than `*` and `/`. -/
  | legacy
  deriving DecidableEq, Repr

namespace Precedence

/-- The operators `*` and `/`. -/
def multiplicative : List Operator := [.times, .divide]

/-- The operators `+` and `-`. -/
def additive : List Operator := [.plus, .minus]

/-- The tier that is folded first. -/
def firstTier : Precedence → List Operator
  | standard => multiplicative
  | legacy => additive

/-- The tier that is folded last. -/
def secondTier : Precedence → List Operator
  | standard => additive
  | legacy => multiplicative

end Precedence

/-- What happens to a token that starts no statement. -/
inductive UnknownPolicy where
  /-- It is skipped and noted. -/
  | skip
  /-- It is an error. -/
  | reject
  deriving DecidableEq, Repr

/-- How a program is read. -/
structure ReadOptions where
  /-- The order of folding. -/
  precedence : Precedence
  /-- What happens to a token that starts no statement. -/
  unknownStatements : UnknownPolicy
  /-- The program must start with a title. -/
  requireTitle : Bool
  /-- Reading is traced in the log. -/
  debug : Bool
  deriving DecidableEq, Repr

namespace ReadOptions

/-- Lenient and quiet. -/
def default : ReadOptions := ⟨.standard, .skip, false, false⟩

/-- Unknown statements are errors and a title is required. -/
def strict : ReadOptions := { default with unknownStatements := .reject, requireTitle := true }

end ReadOptions

end CalcLang
