import Mathlib.Algebra.Order.Field.Basic
import Montage.Proofs.Expr.Moment

/-!
# Exact values of expressions

The value of an expression in an ordered field, such as the rationals or the reals, while a frame is
drawn.  An `Instant` is what the frame gives to the expression: what names, functions and the texts
of callers stand for.  A constant has the value that it stands for, so one that is infinite or
undefined has none, and neither has a quotient by zero.

Where nothing is rounded, what is built from two expressions has the value that the operation makes
of their values, whatever is folded or dropped (`add_valueIn`, `sub_valueIn`, `mul_valueIn`,
`div_valueIn`).  But for a product, the first part may be without a value; then so is the whole.
-/

set_option autoImplicit false

namespace Montage

/-- What names, functions and the texts of callers stand for while a frame is drawn.  A text may
stand for nothing. -/
structure Instant (K : Type) extends Interpretation K where
  given : String → Option K

/-! ## Values -/

section

variable {K : Type} [Field K] [DecidableEq K]

namespace Expr

mutual

/-- The value of an expression at an instant. -/
def valueIn (instant : Instant K) : Expr → Option K
  | .num n => n.valueIn K
  | .var name => some (instant.name name)
  | .raw text => instant.given text
  | .binary operation a b =>
    (valueIn instant a).bind fun x ↦ (valueIn instant b).bind (operation.apply x)
  | .call function args => (valuesIn instant args).map (instant.function function)

/-- The values of the arguments of a call. -/
def valuesIn (instant : Instant K) : List Expr → Option (List K)
  | [] => some []
  | arg :: rest => (valueIn instant arg).bind fun x ↦ (valuesIn instant rest).map (x :: ·)

end

end Expr

/-- The value of an option that is an expression or a number. -/
def OptionValue.valueIn (instant : Instant K) : OptionValue → Option K
  | .expr e => e.valueIn instant
  | .num n => n.valueIn K
  | _ => none

variable {instant : Instant K}

@[simp]
theorem Expr.valueIn_num (n : Number) : (Expr.num n).valueIn instant = n.valueIn K := by
  rw [valueIn]

@[simp]
theorem Expr.valueIn_var (name : String) :
    (Expr.var name).valueIn instant = some (instant.name name) := by
  rw [valueIn]

theorem Expr.valueIn_binary (operation : Operation) (a b : Expr) :
    (Expr.binary operation a b).valueIn instant =
      (a.valueIn instant).bind fun x ↦ (b.valueIn instant).bind (operation.apply x) := by
  rw [valueIn]

theorem Expr.valueIn_call {function : String} {args : List Expr} {xs : List K}
    (h : valuesIn instant args = some xs) :
    (Expr.call function args).valueIn instant = some (instant.function function xs) := by
  rw [valueIn, h, Option.map_some]

@[simp]
theorem Expr.valuesIn_nil : valuesIn instant [] = some [] := by
  rw [valuesIn]

@[simp]
theorem Expr.valuesIn_cons (arg : Expr) (rest : List Expr) : valuesIn instant (arg :: rest) =
    (arg.valueIn instant).bind fun x ↦ (valuesIn instant rest).map (x :: ·) := by
  rw [valuesIn]

@[simp]
theorem OptionValue.valueIn_expr (e : Expr) :
    (OptionValue.expr e).valueIn instant = e.valueIn instant := rfl

/-- A constant that is equal to a whole number has its value. -/
theorem Expr.valueIn_of_isConstant {e : Expr} {k : Int}
    (h : e.isConstant (.whole k) = true) : e.valueIn instant = some (k : K) := by
  cases e with
  | num n => rw [valueIn_num, Number.valueIn_of_eq h]
  | _ => cases h

end

/-! ## Numbers -/

namespace Quantity

variable [rounding : Rounding] (exact : rounding.IsExact)
include exact

/-- A sum is finite just if its first part is, where the second one is. -/
theorem value?_add_of_right (x : Quantity) {y : Quantity} {q : Rat} (hy : y.value? = some q) :
    (x.add y).value? = x.value?.map (· + q) := by
  cases y <;> cases hy <;> cases x <;> simp [add, value?, exact _]

/-- A quotient is finite just if its first part is, where the second one is. -/
theorem value?_div_of_right (x : Quantity) {y : Quantity} {q : Rat} (hy : y.value? = some q) :
    (x.div y).value? = x.value?.map (· / q) := by
  cases hx : x.value? with
  | some p => exact value?_div exact hx hy
  | none =>
    rw [div, hx, hy]
    dsimp only
    split <;> rfl

end Quantity

variable {K : Type} [Field K] [LinearOrder K] [IsStrictOrderedRing K]

/-- In an ordered field every finite number has its value. -/
theorem Number.valueIn_eq_map (n : Number) : n.valueIn K = n.value?.map (Rat.cast : Rat → K) := by
  rw [valueIn]
  cases n.value? with
  | none => rfl
  | some q => simp [ratIn]

theorem Number.valueIn_whole (n : Int) : (Number.whole n).valueIn K = some (n : K) := by
  rw [valueIn_eq_map]
  exact congrArg some (Rat.cast_intCast n)

theorem Number.valueIn_of_value? {n : Number} {q : Rat} (h : n.value? = some q) :
    n.valueIn K = some (q : K) := by
  rw [valueIn_eq_map, h, Option.map_some]

namespace Number

omit [IsStrictOrderedRing K] in
/-- A number that is not equal to zero has a value that is not zero. -/
theorem isZero_of_valueIn {n : Number} {y : K} (h : n.valueIn K = some y) (hy : y ≠ 0) :
    n.isZero = false := by
  rw [Bool.eq_false_iff]
  intro hzero
  have hvalue : n.valueIn K = some ((0 : Int) : K) := valueIn_of_eq hzero
  rw [h, Option.some_inj, Int.cast_zero] at hvalue
  exact hy hvalue

variable [rounding : Rounding] (exact : rounding.IsExact)
include exact

/-- A sum has a value just if its first part has, where the second one has. -/
theorem add_valueIn (m : Number) {n : Number} {y : K} (hn : n.valueIn K = some y) :
    ∃ r, m.add n = .ok r ∧ r.valueIn K = (m.valueIn K).map (· + y) := by
  obtain ⟨q, hq, hy⟩ := valueIn_eq_some.mp hn
  obtain ⟨r, hr, hsame⟩ := add_same exact m n
  refine ⟨r, hr, ?_⟩
  rw [valueIn_eq_map, valueIn_eq_map, value?, hsame.value?_eq,
    Quantity.value?_add_of_right exact _ hq, ← (ratIn_eq_some.mp hy).2, value?]
  cases m.exactly.value? <;> simp

theorem sub_valueIn (m : Number) {n : Number} {y : K} (hn : n.valueIn K = some y) :
    ∃ r, m.sub n = .ok r ∧ r.valueIn K = (m.valueIn K).map (· - y) := by
  obtain ⟨q, hq, hy⟩ := valueIn_eq_some.mp hn
  obtain ⟨r, hr, hsame⟩ := sub_same exact m n
  have hneg : n.exactly.neg.value? = some (-q) := by
    rw [Quantity.value?_neg]
    exact congrArg (Option.map (- ·)) hq
  refine ⟨r, hr, ?_⟩
  rw [valueIn_eq_map, valueIn_eq_map, value?, hsame.value?_eq, Quantity.sub,
    Quantity.value?_add_of_right exact _ hneg, ← (ratIn_eq_some.mp hy).2, value?]
  cases m.exactly.value? <;> simp [sub_eq_add_neg]

theorem mul_valueIn {m n : Number} {x y : K} (hm : m.valueIn K = some x)
    (hn : n.valueIn K = some y) : ∃ r, m.mul n = .ok r ∧ r.valueIn K = some (x * y) := by
  obtain ⟨p, hp, hx⟩ := valueIn_eq_some.mp hm
  obtain ⟨q, hq, hy⟩ := valueIn_eq_some.mp hn
  obtain ⟨r, hr, hsame⟩ := mul_same exact m n
  have hvalue : r.value? = some (p * q) :=
    hsame.value?_eq.trans (Quantity.value?_mul hp hq (exact _))
  exact ⟨r, hr, by rw [valueIn_of_value? hvalue, ← (ratIn_eq_some.mp hx).2,
    ← (ratIn_eq_some.mp hy).2, Rat.cast_mul]⟩

theorem div_valueIn (m : Number) {n : Number} {y : K} (hn : n.valueIn K = some y) (hy : y ≠ 0) :
    ∃ r, m.div n = .ok r ∧ r.valueIn K = (m.valueIn K).map (· / y) := by
  obtain ⟨q, hq, hyq⟩ := valueIn_eq_some.mp hn
  obtain ⟨r, hr, hsame⟩ := div_same exact m (isZero_of_valueIn hn hy)
  refine ⟨r, hr, ?_⟩
  rw [valueIn_eq_map, valueIn_eq_map, value?, hsame.value?_eq,
    Quantity.value?_div_of_right exact _ hq, ← (ratIn_eq_some.mp hyq).2, value?]
  cases m.exactly.value? <;> simp

end Number

/-! ## Building -/

namespace Expr

variable {instant : Instant K} [rounding : Rounding] {a b : Expr}

omit [IsStrictOrderedRing K] in
/-- An operation is built with a value that folding constants and dropping neutral operands both
give. -/
theorem combine_valueIn {operation : Operation} {v : Option K}
    (hfolded : ∀ m n result, a = num m → b = num n → folded operation m n = some result →
      ∃ r, result = .ok r ∧ r.valueIn K = v)
    (hsimplified : (simplified operation a b).valueIn instant = v) :
    ∃ e, combine operation a b = .ok e ∧ e.valueIn instant = v := by
  unfold combine
  split
  · split
    · rename_i result hresult
      obtain ⟨r, rfl, hr⟩ := hfolded _ _ result rfl rfl hresult
      exact ⟨num r, rfl, by rw [valueIn_num, hr]⟩
    · exact ⟨_, rfl, hsimplified⟩
  · exact ⟨_, rfl, hsimplified⟩

variable (exact : rounding.IsExact) {x y : K}
include exact

/-- **A sum is built with its value.** -/
theorem add_valueIn (a : Expr) (hb : b.valueIn instant = some y) :
    ∃ e, a.add b = .ok e ∧ e.valueIn instant = (a.valueIn instant).map (· + y) := by
  refine combine_valueIn ?_ ?_
  · rintro m n _ rfl rfl ⟨⟩
    rw [valueIn_num] at hb ⊢
    exact Number.add_valueIn exact m hb
  · have hsum : ((binary .plus a b).valueIn instant) = (a.valueIn instant).map (· + y) := by
      rw [valueIn_binary, hb]
      cases a.valueIn instant <;> rfl
    rw [simplified.eq_def]
    dsimp only
    split
    · rename_i hconstant
      have hzero : a.valueIn instant = some ((0 : Int) : K) := valueIn_of_isConstant hconstant
      rw [hb, hzero]
      simp
    split
    · rename_i hconstant
      have hzero : b.valueIn instant = some ((0 : Int) : K) := valueIn_of_isConstant hconstant
      obtain rfl : y = 0 := by simpa [hb] using hzero
      simp
    split
    · rename_i n _
      split
      · rw [valueIn_num] at hb
        rw [valueIn_binary, valueIn_num, Number.valueIn_neg hb]
        cases a.valueIn instant <;> simp [Operation.apply]
      · exact hsum
    · exact hsum

/-- **A difference is built with its value.** -/
theorem sub_valueIn (a : Expr) (hb : b.valueIn instant = some y) :
    ∃ e, a.sub b = .ok e ∧ e.valueIn instant = (a.valueIn instant).map (· - y) := by
  refine combine_valueIn ?_ ?_
  · rintro m n _ rfl rfl ⟨⟩
    rw [valueIn_num] at hb ⊢
    exact Number.sub_valueIn exact m hb
  · have hdifference : ((binary .minus a b).valueIn instant) = (a.valueIn instant).map (· - y) := by
      rw [valueIn_binary, hb]
      cases a.valueIn instant <;> rfl
    rw [simplified.eq_def]
    dsimp only
    split
    · rename_i hconstant
      have hzero : b.valueIn instant = some ((0 : Int) : K) := valueIn_of_isConstant hconstant
      obtain rfl : y = 0 := by simpa [hb] using hzero
      simp
    split
    · rename_i n _
      split
      · rw [valueIn_num] at hb
        rw [valueIn_binary, valueIn_num, Number.valueIn_neg hb]
        cases a.valueIn instant <;> simp [Operation.apply, sub_eq_add_neg]
      · exact hdifference
    · exact hdifference

/-- **A product is built with its value.** -/
theorem mul_valueIn (ha : a.valueIn instant = some x) (hb : b.valueIn instant = some y) :
    ∃ e, a.mul b = .ok e ∧ e.valueIn instant = some (x * y) := by
  refine combine_valueIn ?_ ?_
  · rintro m n _ rfl rfl ⟨⟩
    rw [valueIn_num] at ha hb
    exact Number.mul_valueIn exact ha hb
  · rw [simplified.eq_def]
    dsimp only
    split
    · rename_i hconstant
      have hzero : x = 0 ∨ y = 0 := by
        refine (Bool.or_eq_true_iff.mp hconstant).imp (fun h ↦ ?_) fun h ↦ ?_
        · have hzero : a.valueIn instant = some ((0 : Int) : K) := valueIn_of_isConstant h
          simpa [ha] using hzero
        · have hzero : b.valueIn instant = some ((0 : Int) : K) := valueIn_of_isConstant h
          simpa [hb] using hzero
      rw [valueIn_num, mul_eq_zero.mpr hzero]
      exact (Number.valueIn_whole 0).trans (by simp)
    split
    · rename_i hconstant
      have hone : a.valueIn instant = some ((1 : Int) : K) := valueIn_of_isConstant hconstant
      obtain rfl : x = 1 := by simpa [ha] using hone
      rw [hb, one_mul]
    split
    · rename_i hconstant
      have hone : b.valueIn instant = some ((1 : Int) : K) := valueIn_of_isConstant hconstant
      obtain rfl : y = 1 := by simpa [hb] using hone
      rw [ha, mul_one]
    · rw [valueIn_binary, ha, hb]
      rfl

/-- **A quotient is built with its value**, if nothing is divided by zero. -/
theorem div_valueIn (a : Expr) (hb : b.valueIn instant = some y) (hy : y ≠ 0) :
    ∃ e, a.div b = .ok e ∧ e.valueIn instant = (a.valueIn instant).map (· / y) := by
  refine combine_valueIn ?_ ?_
  · rintro m n result rfl rfl hresult
    rw [valueIn_num] at hb ⊢
    have hsome : ¬ n.isZero = true := by
      rw [Number.isZero_of_valueIn hb hy]
      exact Bool.false_ne_true
    rw [folded, if_neg hsome] at hresult
    cases hresult
    exact Number.div_valueIn exact m hb hy
  · rw [simplified.eq_def]
    dsimp only
    split
    · rename_i hconstant
      have hone : b.valueIn instant = some ((1 : Int) : K) := valueIn_of_isConstant hconstant
      obtain rfl : y = 1 := by simpa [hb] using hone
      simp
    split
    · rename_i hconstant
      have hzero : a.valueIn instant = some ((0 : Int) : K) := valueIn_of_isConstant hconstant
      rw [hzero, valueIn_num]
      exact (Number.valueIn_whole 0).trans (by simp)
    · rw [valueIn_binary, hb]
      cases a.valueIn instant <;> simp [Operation.apply, hy]

end Expr

/-! ## Instants at which functions mean what their names say

Animations are built from a few functions: two bounds, the greater and the lesser of two numbers,
the absolute value, a comparison and the sine.  At a standard instant all of them but the sine are
what their names say, and the calls that animations make have the values that follow.

The sine and the number pi stay what the instant says that they are, whatever it says: at an instant
of the reals they may be the sine and the number pi. -/

namespace Instant

/-- The time of the frame. -/
def time (instant : Instant K) : K := instant.name "t"

/-- What the name of the number pi stands for. -/
def pi (instant : Instant K) : K := instant.name "PI"

/-- What the name of the sine stands for. -/
def sin (instant : Instant K) (angle : K) : K := instant.function "sin" [angle]

/-- The functions that compare and that keep within bounds are what their names say. -/
structure IsStandard (instant : Instant K) : Prop where
  clip (x low high : K) : instant.function "clip" [x, low, high] = min (max x low) high
  min (x y : K) : instant.function "min" [x, y] = Min.min x y
  max (x y : K) : instant.function "max" [x, y] = Max.max x y
  abs (x : K) : instant.function "abs" [x] = |x|
  lt (x y : K) : instant.function "lt" [x, y] = if x < y then 1 else 0

/-- A standard instant at some time, at which no text of a caller stands for anything. -/
def standard (time pi : K) (sine : K → K) : Instant K where
  name
    | "t" => time
    | "PI" => pi
    | _ => 0
  function
    | "clip", [x, low, high] => Min.min (Max.max x low) high
    | "min", [x, y] => Min.min x y
    | "max", [x, y] => Max.max x y
    | "abs", [x] => |x|
    | "lt", [x, y] => if x < y then 1 else 0
    | "sin", [x] => sine x
    | _, _ => 0
  given _ := none

omit [IsStrictOrderedRing K] in
theorem standard_isStandard (time pi : K) (sine : K → K) : (standard time pi sine).IsStandard :=
  ⟨fun _ _ _ ↦ rfl, fun _ _ ↦ rfl, fun _ _ ↦ rfl, fun _ ↦ rfl, fun _ _ ↦ rfl⟩

end Instant

/-! ## Calls -/

namespace Expr

variable {instant : Instant K}

theorem valueIn_whole (n : Int) :
    (num (.whole n)).valueIn instant = some (n : K) := by
  rw [valueIn_num, Number.valueIn_whole]

omit [LinearOrder K] [IsStrictOrderedRing K] in
theorem sin_valueIn [DecidableEq K] {e : Expr} {angle : K} (h : e.valueIn instant = some angle) :
    (call "sin" [e]).valueIn instant = some (instant.sin angle) :=
  valueIn_call (by simp [h])

variable (standard : instant.IsStandard)
include standard

theorem clip_valueIn {e : Expr} {x : K} (h : e.valueIn instant = some x) :
    (clip e (.num 0) (.num 1)).valueIn instant = some (min (max x 0) 1) := by
  have hzero : (num 0).valueIn instant = some 0 := (valueIn_whole 0).trans (by simp)
  have hone : (num 1).valueIn instant = some 1 := (valueIn_whole 1).trans (by simp)
  have hvalues : valuesIn instant [e, .num 0, .num 1] = some [x, 0, 1] := by
    rw [valuesIn_cons, valuesIn_cons, valuesIn_cons, h, hzero, hone]
    rfl
  rw [clip, valueIn_call hvalues, standard.clip]

theorem max_valueIn {e : Expr} {u : K} (h : e.valueIn instant = some u) :
    (call "max" [.num 1, e]).valueIn instant = some (max 1 u) := by
  have hone : (num 1).valueIn instant = some 1 := (valueIn_whole 1).trans (by simp)
  have hvalues : valuesIn instant [.num 1, e] = some [1, u] := by
    rw [valuesIn_cons, valuesIn_cons, h, hone]
    rfl
  rw [valueIn_call hvalues, standard.max]

omit [IsStrictOrderedRing K] in
/-- The lesser of two opacities says how much where both do. -/
theorem min_valueIn {a b : Expr} {u : K} (ha : a.valueIn instant = some u) :
    (call "min" [a, b]).valueIn instant = (b.valueIn instant).map (min u) := by
  cases hb : b.valueIn instant with
  | none => simp [valueIn, ha, hb]
  | some v =>
    have hvalues : valuesIn instant [a, b] = some [u, v] := by simp [ha, hb]
    rw [valueIn_call hvalues, standard.min, Option.map_some]

omit [IsStrictOrderedRing K] in
theorem abs_valueIn {e : Expr} {u : K} (h : e.valueIn instant = some u) :
    (call "abs" [e]).valueIn instant = some |u| := by
  have hvalues : valuesIn instant [e] = some [u] := by simp [h]
  rw [valueIn_call hvalues, standard.abs]

end Expr
end Montage
