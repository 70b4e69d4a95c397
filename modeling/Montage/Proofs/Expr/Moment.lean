import Montage.Proofs.Expr.Value
import Montage.Proofs.Number.Same

/-!
# Values of expressions while a frame is drawn

A filter evaluates the expressions in its options anew for every frame.  What a frame gives to them
is a `Moment`: its time and the sizes of canvas and content, by their names, the functions, and what
the texts of callers come to.  The value of an expression at a moment is a quantity.

Expressions are built by folding constants and dropping neutral operands.  Where nothing is rounded,
what is built from two expressions has the value that the operation makes of their values, but for
the sign of a zero.  A product by the constant zero is dropped together with its other factor, so
that this factor has to be finite, and a quotient of the constant zero is dropped likewise.
-/

set_option autoImplicit false

namespace Montage

/-- What names, functions and the texts of callers stand for while a frame is drawn. -/
structure Moment extends Interpretation Quantity where
  given : String → Quantity

section

variable [Rounding]

/-- The result of an operation on quantities; a quotient by zero is undefined. -/
def Operation.compute (operation : Operation) (x y : Quantity) : Quantity :=
  match operation with
  | .plus => x.add y
  | .minus => x.sub y
  | .times => x.mul y
  | .dividedBy => if y.eq (.finite 0) then .undefined else x.div y

namespace Expr

mutual

/-- The value of an expression at a moment. -/
def valueAt (moment : Moment) : Expr → Quantity
  | .num n => n.exactly
  | .var name => moment.name name
  | .raw text => moment.given text
  | .binary operation a b => operation.compute (valueAt moment a) (valueAt moment b)
  | .call function args => moment.function function (valuesAt moment args)

/-- The values of the arguments of a call. -/
def valuesAt (moment : Moment) : List Expr → List Quantity
  | [] => []
  | arg :: rest => valueAt moment arg :: valuesAt moment rest

end

end Expr

end

variable [rounding : Rounding]

/-! ## Numbers -/

namespace Number

variable (exact : rounding.IsExact)
include exact

theorem toQuantity_exactly (n : Number) : n.toQuantity = .ok n.exactly := by
  cases n with
  | whole n => exact toQuantity_whole exact n
  | real x => rfl

/-- A result of numbers is the result of their exact values. -/
theorem combine_same {onWhole : Int → Int → Int} {limited : Quantity → Quantity → Quantity}
    (h : ∀ a b : Int, Quantity.Same (.finite (onWhole a b)) (limited (.finite a) (.finite b)))
    (m n : Number) : ∃ r, combine onWhole limited m n = .ok r ∧
      r.exactly.Same (limited m.exactly n.exactly) := by
  rw [combine.eq_def]
  split
  · rename_i a b
    exact ⟨_, rfl, h a b⟩
  · rw [toQuantity_exactly exact, toQuantity_exactly exact]
    exact ⟨_, rfl, .refl _⟩

theorem add_same (m n : Number) :
    ∃ r, m.add n = .ok r ∧ r.exactly.Same (m.exactly.add n.exactly) := by
  refine combine_same exact (fun a b ↦ ?_) m n
  exact .of_value? rfl (by rw [Quantity.value?_add exact rfl rfl, Int.cast_add])

theorem sub_same (m n : Number) :
    ∃ r, m.sub n = .ok r ∧ r.exactly.Same (m.exactly.sub n.exactly) := by
  refine combine_same exact (fun a b ↦ ?_) m n
  exact .of_value? rfl (by rw [Quantity.value?_sub exact rfl rfl, Int.cast_sub])

theorem mul_same (m n : Number) :
    ∃ r, m.mul n = .ok r ∧ r.exactly.Same (m.exactly.mul n.exactly) := by
  refine combine_same exact (fun a b ↦ ?_) m n
  exact .of_value? rfl (by rw [Quantity.value?_mul rfl rfl (exact _), Int.cast_mul])

theorem div_same (m : Number) {n : Number} (hn : n.isZero = false) :
    ∃ r, m.div n = .ok r ∧ r.exactly.Same (m.exactly.div n.exactly) := by
  rw [div.eq_def]
  split
  · rename_i a b
    have hb : b ≠ 0 := by
      rintro rfl
      cases hn
    have hvalue : ((Quantity.finite a).div (.finite b)).value? = some ((a : Rat) / b) :=
      Quantity.value?_div exact rfl rfl
    rw [if_neg hb]
    split
    · rename_i ha
      refine ⟨_, rfl, .of_value? (Quantity.value?_zero _) ?_⟩
      rw [exactly, exactly, hvalue, ha, Int.cast_zero, zero_div]
    · rw [exact, Rat.mkRat_one, Rat.mkRat_one]
      exact ⟨_, rfl, .of_value? rfl hvalue⟩
  · rw [toQuantity_exactly exact, toQuantity_exactly exact]
    refine ⟨.real (m.exactly.div n.exactly), ?_, .refl _⟩
    refine bind_eq_ok.mpr ⟨_, rfl, bind_eq_ok.mpr ⟨_, rfl, ?_⟩⟩
    rw [if_neg (by rw [Bool.not_eq_true]; exact hn)]
    rfl

omit rounding exact in
theorem neg_same (n : Number) : n.neg.exactly.Same n.exactly.neg := by
  cases n with
  | whole n =>
    refine .of_value? (q := -n) (congrArg some (Int.cast_neg n)) ?_
    rw [Quantity.value?_neg]
    rfl
  | real x => exact .refl _

end Number

/-! ## Building -/

namespace Expr

variable {moment : Moment} {a b : Expr}

/-- A constant that is equal to a whole number has its value. -/
theorem valueAt_of_isConstant {k : Int} (h : a.isConstant (.whole k) = true) :
    (a.valueAt moment).Same (.finite k) := by
  cases a with
  | num n => exact .of_eq h
  | _ => cases h

theorem valueAt_num (n : Number) : (num n).valueAt moment = n.exactly := by
  rw [valueAt]

theorem valueAt_binary (operation : Operation) (a b : Expr) :
    (binary operation a b).valueAt moment =
      operation.compute (a.valueAt moment) (b.valueAt moment) := by
  rw [valueAt]

variable (exact : rounding.IsExact)
include exact

/-- Constants are folded to the value of the operation. -/
theorem folded_same {operation : Operation} {m n : Number} {result : Except Error Number}
    (h : folded operation m n = some result) :
    ∃ r, result = .ok r ∧ r.exactly.Same (operation.compute m.exactly n.exactly) := by
  cases operation with
  | plus =>
    cases h
    exact Number.add_same exact m n
  | minus =>
    cases h
    exact Number.sub_same exact m n
  | times =>
    cases h
    exact Number.mul_same exact m n
  | dividedBy =>
    rw [folded] at h
    split at h
    · cases h
    · rename_i hn
      cases h
      rw [Bool.not_eq_true] at hn
      rw [Operation.compute, if_neg (by rw [Bool.not_eq_true]; exact hn)]
      exact Number.div_same exact m hn

/-- An operation is built with its value if dropping neutral operands keeps it. -/
theorem combine_same {operation : Operation}
    (h : ((simplified operation a b).valueAt moment).Same
      (operation.compute (a.valueAt moment) (b.valueAt moment))) :
    ∃ e, combine operation a b = .ok e ∧
      (e.valueAt moment).Same (operation.compute (a.valueAt moment) (b.valueAt moment)) := by
  unfold combine
  split
  · rename_i m n
    split
    · rename_i result hresult
      obtain ⟨r, rfl, hr⟩ := folded_same exact hresult
      rw [valueAt_num, valueAt_num]
      exact ⟨num r, rfl, by rwa [valueAt_num]⟩
    · exact ⟨_, rfl, h⟩
  · exact ⟨_, rfl, h⟩

/-- **A sum is built with its value.** -/
theorem add_same (moment : Moment) (a b : Expr) : ∃ e, a.add b = .ok e ∧
    (e.valueAt moment).Same ((a.valueAt moment).add (b.valueAt moment)) := by
  show ∃ e, combine .plus a b = .ok e ∧ (e.valueAt moment).Same
    (Operation.plus.compute (a.valueAt moment) (b.valueAt moment))
  refine combine_same exact ?_
  rw [simplified.eq_def]
  dsimp only
  split
  · have hzero : (a.valueAt moment).Same (.finite 0) := valueAt_of_isConstant ‹_›
    exact ((Quantity.zero_add exact _).symm.trans (hzero.symm.add exact (.refl _)))
  split
  · have hzero : (b.valueAt moment).Same (.finite 0) := valueAt_of_isConstant ‹_›
    exact ((Quantity.add_zero exact _).symm.trans (Quantity.Same.add exact (.refl _) hzero.symm))
  split
  · rename_i n _
    split
    · rw [valueAt_binary, valueAt_num, valueAt_num]
      have hneg := Quantity.Same.sub exact (.refl (a.valueAt moment)) n.neg_same
      rwa [Quantity.sub_neg] at hneg
    · rw [valueAt_binary]
      exact .refl _
  · rw [valueAt_binary]
    exact .refl _

/-- **A difference is built with its value.** -/
theorem sub_same (moment : Moment) (a b : Expr) : ∃ e, a.sub b = .ok e ∧
    (e.valueAt moment).Same ((a.valueAt moment).sub (b.valueAt moment)) := by
  show ∃ e, combine .minus a b = .ok e ∧ (e.valueAt moment).Same
    (Operation.minus.compute (a.valueAt moment) (b.valueAt moment))
  refine combine_same exact ?_
  rw [simplified.eq_def]
  dsimp only
  split
  · have hzero : (b.valueAt moment).Same (.finite 0) := valueAt_of_isConstant ‹_›
    exact ((Quantity.sub_zero _).symm.trans (Quantity.Same.sub exact (.refl _) hzero.symm))
  split
  · rename_i n _
    split
    · rw [valueAt_binary, valueAt_num, valueAt_num]
      exact Quantity.Same.add exact (.refl _) n.neg_same
    · rw [valueAt_binary]
      exact .refl _
  · rw [valueAt_binary]
    exact .refl _

/-- **A product is built with its value**, if the constant zero is multiplied by what is finite. -/
theorem mul_same (hb : a.isConstant 0 = true → (b.valueAt moment).isFinite = true)
    (ha : b.isConstant 0 = true → (a.valueAt moment).isFinite = true) :
    ∃ e, a.mul b = .ok e ∧
      (e.valueAt moment).Same ((a.valueAt moment).mul (b.valueAt moment)) := by
  show ∃ e, combine .times a b = .ok e ∧ (e.valueAt moment).Same
    (Operation.times.compute (a.valueAt moment) (b.valueAt moment))
  refine combine_same exact ?_
  rw [simplified.eq_def]
  dsimp only
  split
  · rename_i hconstant
    rw [valueAt_num]
    obtain hconstant | hconstant := Bool.or_eq_true_iff.mp hconstant
    · have hzero : (a.valueAt moment).Same (.finite 0) := valueAt_of_isConstant hconstant
      exact ((Quantity.Same.mul hzero (.refl _)).trans (Quantity.zero_mul (hb hconstant))).symm
    · have hzero : (b.valueAt moment).Same (.finite 0) := valueAt_of_isConstant hconstant
      exact ((Quantity.Same.mul (.refl _) hzero).trans (Quantity.mul_zero (ha hconstant))).symm
  split
  · have hone : (a.valueAt moment).Same (.finite 1) := valueAt_of_isConstant ‹_›
    exact (Quantity.one_mul exact _).symm.trans (hone.symm.mul (.refl _))
  split
  · have hone : (b.valueAt moment).Same (.finite 1) := valueAt_of_isConstant ‹_›
    exact (Quantity.mul_one exact _).symm.trans (Quantity.Same.mul (.refl _) hone.symm)
  · rw [valueAt_binary]
    exact .refl _

/-- **A quotient is built with its value**, if nothing is divided by zero and the constant zero is
divided by what is defined. -/
theorem div_same (hb : (b.valueAt moment).eq (.finite 0) = false)
    (ha : a.isConstant 0 = true → b.valueAt moment ≠ .undefined) :
    ∃ e, a.div b = .ok e ∧
      (e.valueAt moment).Same ((a.valueAt moment).div (b.valueAt moment)) := by
  have hcompute : Operation.dividedBy.compute (a.valueAt moment) (b.valueAt moment) =
      (a.valueAt moment).div (b.valueAt moment) := by
    rw [Operation.compute, hb]
    rfl
  rw [← hcompute]
  refine combine_same exact ?_
  rw [simplified.eq_def]
  dsimp only
  split
  · have hone : (b.valueAt moment).Same (.finite 1) := valueAt_of_isConstant ‹_›
    rw [hcompute, hone.eq_or_zero.resolve_right (by rintro ⟨-, ⟨⟩⟩)]
    exact (Quantity.div_one exact _).symm
  split
  · rename_i hconstant
    have hzero : (a.valueAt moment).Same (.finite 0) := valueAt_of_isConstant hconstant
    rw [hcompute, valueAt_num]
    exact (Quantity.div_of_value?_zero hzero.value?_eq (ha hconstant)).symm
  · rw [valueAt_binary]
    exact .refl _

end Expr
end Montage
