import CalcLang.Value.Arithmetic
import Mathlib.Data.Int.ModEq

/-! # Integers of fixed width

    Integers have 32 or 64 bits, and an operation on two of them is the exact one, brought into the
    signed range of their width:

    * `Value.IsInteger`: the width and the number of an integer.
    * `Value.Holds`: what an exact number becomes in a width.
    * `Value.FailsOnly`: an operation fails on values of different types and on the divisor zero, and
      on nothing else.
    * `Value.IntegerLaws`: what the operations give on two integers of one width.
    * `Value.integer_arithmetic`: all values and all operations are as these say.

    An operation of either width is the exact one modulo a power of two, so the laws are shown for
    both widths at once, from one lemma for each operation. -/

namespace CalcLang.Value

variable {a b r v : Value} {width : Nat} {m n k : Int}
  {exact : Int → Int → Int}

/-! ### Numbers of integers -/

/-- An integer of some width and the number that it is. -/
inductive IsInteger : Nat → Int → Value → Prop
  | narrow (n : Int32) : IsInteger 32 n.toInt (.int32 n)
  | wide (n : Int64) : IsInteger 64 n.toInt (.int64 n)

/-- An integer of some width that is a given number, reduced to the signed range of the width. -/
def Holds (width : Nat) (exact : Int) (v : Value) : Prop :=
  ∃ n, v.IsInteger width n ∧ -2 ^ (width - 1) ≤ n ∧ n < 2 ^ (width - 1) ∧
    n ≡ exact [ZMOD 2 ^ width]

namespace IsInteger

theorem bounds (h : v.IsInteger width n) : -2 ^ (width - 1) ≤ n ∧ n < 2 ^ (width - 1) := by
  cases h with
  | narrow n => exact ⟨n.le_toInt, n.toInt_lt⟩
  | wide n => exact ⟨n.le_toInt, n.toInt_lt⟩

theorem dataType_eq (ha : a.IsInteger width m) (hb : b.IsInteger width n) :
    a.dataType = b.dataType := by
  cases ha <;> cases hb <;> rfl

/-- An integer has one number. -/
theorem number_eq (h : v.IsInteger width m) (h' : v.IsInteger width n) : m = n := by
  cases h <;> cases h' <;> rfl

/-- There is one integer of a width for a number. -/
theorem value_eq (ha : a.IsInteger width n) (hb : b.IsInteger width n) : a = b := by
  -- Both integers fix the number, so the second one gets a number of its own first.
  generalize hm : n = m at hb
  cases ha with
  | narrow x =>
    cases hb with
    | narrow y => rw [Int32.toInt_inj.1 hm]
  | wide x =>
    cases hb with
    | wide y => rw [Int64.toInt_inj.1 hm]

theorem bmod_eq (h : v.IsInteger width n) : n.bmod (2 ^ width) = n := by
  cases h with
  | narrow n => exact n.toInt_bmod_size
  | wide n => exact n.toInt_bmod_size

/-- A number that is in the range of a width is the number of an integer. -/
theorem exists_value (h : v.IsInteger width n) (hlow : -2 ^ (width - 1) ≤ k)
    (hhigh : k < 2 ^ (width - 1)) : ∃ r : Value, r.IsInteger width k := by
  cases h with
  | narrow n =>
    have hk : (Int32.ofInt k).toInt = k := Int32.toInt_ofInt_of_le hlow hhigh
    rw [← hk]
    exact ⟨_, .narrow _⟩
  | wide n =>
    have hk : (Int64.ofInt k).toInt = k := Int64.toInt_ofInt_of_le hlow hhigh
    rw [← hk]
    exact ⟨_, .wide _⟩

/-- Reducing a number to the signed range of a width. -/
theorem holds (h : v.IsInteger width (k.bmod (2 ^ width))) : v.Holds width k := by
  refine ⟨_, h, h.bounds.1, h.bounds.2, ?_⟩
  have hmod : k.bmod (2 ^ width) % ((2 ^ width : Nat) : Int) = k % ((2 ^ width : Nat) : Int) :=
    Int.bmod_emod
  rw [Nat.cast_pow] at hmod
  exact hmod

/-! ### One operation -/

section Operations

variable (ha : a.IsInteger width m) (hb : b.IsInteger width n)

include ha

theorem negate_eq : (negate a).IsInteger width ((-m).bmod (2 ^ width)) := by
  cases ha with
  | narrow x =>
    rw [← Int32.toInt_neg]
    exact .narrow (-x)
  | wide x =>
    rw [← Int64.toInt_neg]
    exact .wide (-x)

include hb

/-- An operation that is the exact one modulo a power of two, in either width. -/
theorem operation_eq {operation : Value → Value → Except ArithmeticError Value}
    (hnarrow : ∀ x y : Int32, y.toInt = n → ∃ z, operation (.int32 x) (.int32 y) = .ok (.int32 z) ∧
      z.toInt = (exact x.toInt y.toInt).bmod (2 ^ 32))
    (hwide : ∀ x y : Int64, y.toInt = n → ∃ z, operation (.int64 x) (.int64 y) = .ok (.int64 z) ∧
      z.toInt = (exact x.toInt y.toInt).bmod (2 ^ 64)) :
    ∃ v, operation a b = .ok v ∧ v.IsInteger width ((exact m n).bmod (2 ^ width)) := by
  cases ha with
  | narrow x =>
    cases hb with
    | narrow y =>
      obtain ⟨z, hz, hexact⟩ := hnarrow x y rfl
      rw [← hexact]
      exact ⟨_, hz, .narrow z⟩
  | wide x =>
    cases hb with
    | wide y =>
      obtain ⟨z, hz, hexact⟩ := hwide x y rfl
      rw [← hexact]
      exact ⟨_, hz, .wide z⟩

theorem add_eq : ∃ v, add a b = .ok v ∧ v.IsInteger width ((m + n).bmod (2 ^ width)) :=
  ha.operation_eq hb (fun x y _ => ⟨x + y, rfl, Int32.toInt_add x y⟩)
    (fun x y _ => ⟨x + y, rfl, Int64.toInt_add x y⟩)

theorem subtract_eq : ∃ v, subtract a b = .ok v ∧ v.IsInteger width ((m - n).bmod (2 ^ width)) :=
  ha.operation_eq hb (fun x y _ => ⟨x - y, rfl, Int32.toInt_sub x y⟩)
    (fun x y _ => ⟨x - y, rfl, Int64.toInt_sub x y⟩)

theorem multiply_eq : ∃ v, multiply a b = .ok v ∧ v.IsInteger width ((m * n).bmod (2 ^ width)) :=
  ha.operation_eq hb (fun x y _ => ⟨x * y, rfl, Int32.toInt_mul x y⟩)
    (fun x y _ => ⟨x * y, rfl, Int64.toInt_mul x y⟩)

theorem divide_eq (hn : n ≠ 0) :
    ∃ v, divide a b = .ok v ∧ v.IsInteger width ((m.tdiv n).bmod (2 ^ width)) := by
  apply ha.operation_eq hb
  · intro x y hy
    have hsome : y ≠ 0 := by
      rintro rfl
      exact hn hy.symm
    exact ⟨x / y, if_neg hsome, Int32.toInt_div x y⟩
  · intro x y hy
    have hsome : y ≠ 0 := by
      rintro rfl
      exact hn hy.symm
    exact ⟨x / y, if_neg hsome, Int64.toInt_div x y⟩

end Operations

end IsInteger

/-! ### Differences and remainders -/

/-- A remainder of a division of numbers, as an integer of some width: it is closer to zero than the
    divisor, and on the side of the dividend. -/
def IsRemainder (width : Nat) (dividend divisor : Int) (r : Value) : Prop :=
  ∃ k, r.IsInteger width k ∧ k.natAbs < divisor.natAbs ∧ (k = 0 ∨ k.sign = dividend.sign)

/-- A difference is the sum with the opposite. -/
theorem IsInteger.subtract_eq_add (ha : a.IsInteger width m) (hb : b.IsInteger width n) :
    subtract a b = add a (negate b) := by
  obtain ⟨v, hsubtract, hv⟩ := ha.subtract_eq hb
  obtain ⟨w, hadd, hw⟩ := ha.add_eq hb.negate_eq
  rw [Int.add_bmod_bmod, ← Int.sub_eq_add_neg] at hw
  rw [hsubtract, hadd, hv.value_eq hw]

/-- At most one integer makes up for a difference. -/
theorem IsInteger.eq_of_add_eq {p r' : Value} {l k' : Int} (hp : p.IsInteger width l)
    (hr : r.IsInteger width k) (hr' : r'.IsInteger width k') (h : add p r = add p r') : r = r' := by
  obtain ⟨v, hadd, hv⟩ := hp.add_eq hr
  obtain ⟨w, hadd', hw⟩ := hp.add_eq hr'
  rw [hadd, hadd', Except.ok.injEq] at h
  subst h
  -- Take the number that both sums have in common off them.  What is left is in range.
  have hsame := congrArg (fun x => (x - l).bmod (2 ^ width)) (hv.number_eq hw)
  simp only [Int.bmod_sub_bmod, add_sub_cancel_left, hr.bmod_eq, hr'.bmod_eq] at hsame
  subst hsame
  exact hr.value_eq hr'

theorem natAbs_tmod_lt (m : Int) (hn : n ≠ 0) : (m.tmod n).natAbs < n.natAbs := by
  rw [Int.natAbs_tmod]
  exact Nat.mod_lt _ (Int.natAbs_pos.2 hn)

theorem sign_tmod (m n : Int) : m.tmod n = 0 ∨ (m.tmod n).sign = m.sign := by
  rw [Int.sign_tmod]
  split
  · next hdvd => exact .inl (Int.tmod_eq_zero_of_dvd hdvd)
  · exact .inr rfl

/-- The quotient, multiplied by the divisor, is less than the dividend by the remainder.  The
    product and the sum may wrap around, and then they do so by the same amount. -/
theorem IsInteger.existsUnique_remainder (ha : a.IsInteger width m) (hb : b.IsInteger width n)
    (hn : n ≠ 0) : ∃ q p, divide a b = .ok q ∧ multiply q b = .ok p ∧
      ∃! r, IsRemainder width m n r ∧ add p r = .ok a := by
  obtain ⟨q, hdivide, hq⟩ := ha.divide_eq hb hn
  obtain ⟨p, hmultiply, hp⟩ := hq.multiply_eq hb
  rw [Int.bmod_mul_bmod] at hp
  have hsmall := natAbs_tmod_lt m hn
  -- The remainder is closer to zero than the divisor, so it is in the range of the width.
  obtain ⟨r, hr⟩ : ∃ r : Value, r.IsInteger width (m.tmod n) := by
    have hbounds := hb.bounds
    exact hb.exists_value (by omega) (by omega)
  obtain ⟨v, hadd, hv⟩ := hp.add_eq hr
  rw [Int.bmod_add_bmod, Int.tdiv_mul_add_tmod, ha.bmod_eq] at hv
  obtain rfl := hv.value_eq ha
  refine ⟨q, p, hdivide, hmultiply, r, ⟨⟨_, hr, hsmall, sign_tmod m n⟩, hadd⟩, ?_⟩
  rintro r' ⟨⟨k', hr', -⟩, hadd'⟩
  exact hp.eq_of_add_eq hr' hr (hadd'.trans hadd.symm)

/-! ### Failures -/

/-- An operation on two values fails if they differ in type, with both types, and if a division by
    zero is asked for; otherwise it gives a value of their type. -/
structure FailsOnly (operation : Value → Value → Except ArithmeticError Value) (a b : Value)
    (byZero : Prop) : Prop where
  widthMismatch (left right : DataType) : operation a b = .error (.widthMismatch left right) ↔
    a.dataType ≠ b.dataType ∧ left = a.dataType ∧ right = b.dataType
  divisionByZero : operation a b = .error .divisionByZero ↔ byZero
  value : a.dataType = b.dataType → ¬byZero → ∃ v, operation a b = .ok v ∧ v.dataType = a.dataType

theorem failsOnly_of {operation : Value → Value → Except ArithmeticError Value} {byZero : Prop}
    (hother : a.dataType ≠ b.dataType → operation a b = mismatch a b)
    (hzero : byZero → a.dataType = b.dataType ∧ operation a b = .error .divisionByZero)
    (hvalue : a.dataType = b.dataType → ¬byZero →
      ∃ v, operation a b = .ok v ∧ v.dataType = a.dataType) :
    FailsOnly operation a b byZero := by
  refine ⟨fun left right => ?_, ?_, hvalue⟩
  all_goals
    by_cases htype : a.dataType = b.dataType
    · by_cases hbyZero : byZero
      · simp [(hzero hbyZero).2, htype, hbyZero]
      · obtain ⟨v, hv, -⟩ := hvalue htype hbyZero
        simp [hv, htype, hbyZero]
    · have hnot : ¬byZero := fun h => htype (hzero h).1
      simp [hother htype, mismatch, htype, hnot, eq_comm]

/-- The types of the operands alone decide whether these operations fail. -/
theorem failsOnly_of_types (a b : Value) :
    ∀ operation ∈ [add, subtract, multiply], FailsOnly operation a b False := by
  intro operation h
  rw [List.mem_cons, List.mem_cons, List.mem_singleton] at h
  rcases h with rfl | rfl | rfl
  all_goals
    refine failsOnly_of (fun htype => ?_) False.elim fun htype _ => ?_
    · cases a <;> cases b <;> first | rfl | exact absurd rfl htype
    · cases a <;> cases b <;> first | exact ⟨_, rfl, rfl⟩ | cases htype

/-- A division fails on a zero that is an integer, too.  Zeros of other types than the dividend are
    no exception to the first rule. -/
theorem failsOnly_divide (a b : Value) :
    FailsOnly divide a b (∃ width m, a.IsInteger width m ∧ b.IsInteger width 0) := by
  refine failsOnly_of (fun htype => ?_) ?_ fun htype hsome => ?_
  · cases a <;> cases b <;> first | rfl | exact absurd rfl htype
  · rintro ⟨width, m, ha, hb⟩
    refine ⟨ha.dataType_eq hb, ?_⟩
    generalize hzero : (0 : Int) = zero at hb
    cases ha with
    | narrow x =>
      cases hb with
      | narrow y => exact if_pos (Int32.toInt_inj.1 hzero.symm)
    | wide x =>
      cases hb with
      | wide y => exact if_pos (Int64.toInt_inj.1 hzero.symm)
  · -- Only the quotients of integers have a condition.
    cases a with
    | int32 x =>
      cases b with
      | int32 y =>
        have hy : y ≠ 0 := by
          rintro rfl
          exact hsome ⟨32, _, .narrow x, .narrow 0⟩
        exact ⟨_, if_neg hy, rfl⟩
      | _ => cases htype
    | int64 x =>
      cases b with
      | int64 y =>
        have hy : y ≠ 0 := by
          rintro rfl
          exact hsome ⟨64, _, .wide x, .wide 0⟩
        exact ⟨_, if_neg hy, rfl⟩
      | _ => cases htype
    | real32 x => cases b <;> first | exact ⟨_, rfl, rfl⟩ | cases htype
    | real64 x => cases b <;> first | exact ⟨_, rfl, rfl⟩ | cases htype

/-! ### Main result -/

/-- What the operations give on two integers of one width, in terms of their numbers. -/
structure IntegerLaws (width : Nat) (m n : Int) (a b : Value) : Prop where
  sum : ∃ v, add a b = .ok v ∧ v.Holds width (m + n)
  difference : ∃ v, subtract a b = .ok v ∧ v.Holds width (m - n)
  product : ∃ v, multiply a b = .ok v ∧ v.Holds width (m * n)
  /-- Quotients are cut toward zero. -/
  quotient : n ≠ 0 → ∃ v, divide a b = .ok v ∧ v.Holds width (m.tdiv n)
  opposite : (negate a).Holds width (-m)
  subtract_eq : subtract a b = add a (negate b)
  /-- A quotient leaves one remainder, also where it wraps around. -/
  remainder : n ≠ 0 → ∃ q p, divide a b = .ok q ∧ multiply q b = .ok p ∧
    ∃! r, IsRemainder width m n r ∧ add p r = .ok a

/-- On all values, an operation fails with both types iff these differ, a division fails on zero iff
    both operands are integers of one width, and nothing else fails.  On integers of one width, the
    result is the exact one, reduced to the signed range of the width. -/
theorem integer_arithmetic (a b : Value) :
    (∀ operation ∈ [add, subtract, multiply], FailsOnly operation a b False) ∧
      FailsOnly divide a b (∃ width m, a.IsInteger width m ∧ b.IsInteger width 0) ∧
      ∀ width m n, a.IsInteger width m → b.IsInteger width n → IntegerLaws width m n a b := by
  refine ⟨failsOnly_of_types a b, failsOnly_divide a b, fun width m n ha hb => ?_⟩
  have hresult {result : Except ArithmeticError Value} {k : Int}
      (h : ∃ v, result = .ok v ∧ v.IsInteger width (k.bmod (2 ^ width))) :
      ∃ v, result = .ok v ∧ v.Holds width k := by
    obtain ⟨v, hv, hinteger⟩ := h
    exact ⟨v, hv, hinteger.holds⟩
  exact {
    sum := hresult (ha.add_eq hb)
    difference := hresult (ha.subtract_eq hb)
    product := hresult (ha.multiply_eq hb)
    quotient := fun hn => hresult (ha.divide_eq hb hn)
    opposite := ha.negate_eq.holds
    subtract_eq := ha.subtract_eq_add hb
    remainder := ha.existsUnique_remainder hb }

/-- The smallest integer divided by minus one: the quotient wraps around to the dividend, and so does
    the product. -/
theorem integer_arithmetic_smallest :
    (int32 Int32.minValue).IsInteger 32 (-2 ^ 31) ∧ (int32 (-1)).IsInteger 32 (-1) ∧ (-1 : Int) ≠ 0 ∧
      IntegerLaws 32 (-2 ^ 31) (-1) (int32 Int32.minValue) (int32 (-1)) ∧
      divide (int32 Int32.minValue) (int32 (-1)) = .ok (int32 Int32.minValue) ∧
      ∃! r, IsRemainder 32 (-2 ^ 31) (-1) r ∧
        add (int32 Int32.minValue) r = .ok (int32 Int32.minValue) := by
  have ha : (int32 Int32.minValue).IsInteger 32 (-2 ^ 31) := .narrow Int32.minValue
  have hb : (int32 (-1)).IsInteger 32 (-1) := .narrow (-1)
  have hlaws := (integer_arithmetic (int32 Int32.minValue) (int32 (-1))).2.2 32 _ _ ha hb
  obtain ⟨q, p, hdivide, hmultiply, hremainder⟩ := hlaws.remainder (by decide)
  cases hdivide
  cases hmultiply
  exact ⟨ha, hb, by decide, hlaws, rfl, hremainder⟩

end CalcLang.Value
