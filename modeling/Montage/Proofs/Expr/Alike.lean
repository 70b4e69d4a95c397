import Montage.Expr.Basic
import Montage.Filter.Graph
import Montage.Proofs.Outcome
import Montage.Proofs.Position.Settled

/-!
# Expressions that are written alike

A zero at the far left of an expression may be the whole number or the quantity, and the text does
not tell: `0-text_w/2` is the text of both.  Expressions that differ in nothing else are alike.
They are not only written alike; they stay alike when something is added to them or subtracted
from them on the right, because neither folding nor the dropping of neutral operands looks at the
kind of a zero.

The last point needs a proviso.  Constants are folded by kind, so that a whole number that is
added would keep the difference of the two zeros and bring it out in other constants; what is
added is therefore no constant, or a zero again (`Expr.IsVariable`).
-/

set_option autoImplicit false

namespace Montage
namespace Expr

/-- The expressions differ at most in the kind of a zero at their far left. -/
inductive Alike : Expr → Expr → Prop where
  | refl (e : Expr) : Alike e e
  | zero : Alike (.num 0) (.num (.real (.finite 0)))
  | binary (operation : Operation) {a b : Expr} (h : Alike a b) (c : Expr) :
      Alike (.binary operation a c) (.binary operation b c)

namespace Alike

variable {a b c : Expr}

theorem precedence_eq (h : Alike a b) : a.precedence = b.precedence := by
  cases h <;> rfl

theorem isWritable_eq (h : Alike a b) : a.isWritable = b.isWritable := by
  induction h with
  | refl e => rfl
  | zero => decide +kernel
  | binary operation h c ih => rw [isWritable, isWritable, ih]

/-- **Alike expressions have the same text.** -/
theorem text_eq (h : Alike a b) : a.text = b.text := by
  induction h with
  | refl e => rfl
  | zero => decide
  | binary operation h c ih =>
    simp only [text, ih, h.precedence_eq]

theorem readsAlone_eq (h : Alike a b) : OptionValue.readsAlone a = OptionValue.readsAlone b := by
  cases h <;> rfl

end Alike
/-! ## What is no constant -/

/-- No constant. -/
def IsOpen (e : Expr) : Prop := ∀ n, e ≠ .num n

/-- No constant, or the zero to which a product folds. -/
def IsVariable (e : Expr) : Prop := ∀ n, e = .num n → n = 0

theorem IsOpen.isVariable {e : Expr} (h : e.IsOpen) : e.IsVariable :=
  fun n hn ↦ absurd hn (h n)

theorem isOpen_var (name : String) : (Expr.var name).IsOpen := by rintro _ ⟨⟩

theorem isOpen_call (function : String) (args : List Expr) : (Expr.call function args).IsOpen := by
  rintro _ ⟨⟩

theorem isOpen_binary (operation : Operation) (a b : Expr) :
    (Expr.binary operation a b).IsOpen := by
  rintro _ ⟨⟩

variable [Rounding]

/-- Nothing is folded where one side is no constant. -/
theorem combine_of_isOpen {operation : Operation} {a b : Expr} (h : a.IsOpen ∨ b.IsOpen) :
    combine operation a b = .ok (simplified operation a b) := by
  unfold combine
  split
  · exact absurd h (by rintro (h | h) <;> exact h _ rfl)
  · rfl

omit [Rounding] in
theorem isConstant_of_isOpen {e : Expr} (h : e.IsOpen) (value : Number) :
    e.isConstant value = false := by
  cases e with
  | num n => exact absurd rfl (h n)
  | _ => rfl

/-- A product with something that is no constant is none, or zero. -/
theorem mul_isVariable {a b c : Expr} (h : a.IsOpen ∨ b.IsOpen) (hmul : a.mul b = .ok c) :
    c.IsVariable := by
  rw [mul, combine_of_isOpen h] at hmul
  cases hmul
  rw [simplified]
  split
  · intro n hn
    cases hn
    rfl
  split
  · rename_i hone
    obtain ha | hb := h
    · rw [isConstant_of_isOpen ha] at hone
      cases hone
    · exact hb.isVariable
  split
  · rename_i hone
    obtain ha | hb := h
    · exact ha.isVariable
    · rw [isConstant_of_isOpen hb] at hone
      cases hone
  · exact (isOpen_binary _ _ _).isVariable

/-- A quotient of what is no constant is none, or zero. -/
theorem div_isVariable {a b c : Expr} (h : a.IsOpen) (hdiv : a.div b = .ok c) :
    c.IsVariable := by
  rw [div, combine_of_isOpen (.inl h)] at hdiv
  cases hdiv
  rw [simplified, isConstant_of_isOpen h]
  split
  · exact h.isVariable
  · exact (isOpen_binary _ _ _).isVariable

/-- A difference of which the second part is no constant is none. -/
theorem sub_isOpen {a b c : Expr} (h : b.IsOpen) (hsub : a.sub b = .ok c) : c.IsOpen := by
  rw [sub, combine_of_isOpen (.inr h)] at hsub
  cases hsub
  simp only [simplified, isConstant_of_isOpen h, Bool.false_eq_true, if_false]
  cases b with
  | num n => exact absurd rfl (h n)
  | _ => exact isOpen_binary _ _ _

/-! ## Sums and differences of what is alike -/

omit [Rounding] in
/-- What is alike and no constant stays alike when something is added or subtracted. -/
theorem Alike.simplified {operation : Operation} (hsum : operation = .plus ∨ operation = .minus)
    {a b : Expr} (h : Alike a b) (ha : a.IsOpen) (hb : b.IsOpen) (c : Expr) :
    Alike (Expr.simplified operation a c) (Expr.simplified operation b c) := by
  have hleft := isConstant_of_isOpen ha 0
  have hright := isConstant_of_isOpen hb 0
  obtain rfl | rfl := hsum <;>
    simp only [Expr.simplified, hleft, hright, Bool.false_eq_true, if_false] <;> split
  · exact h
  · cases c <;> dsimp only
    case num n => split <;> exact .binary _ h _
    all_goals exact .binary _ h _
  · exact h
  · cases c <;> dsimp only
    case num n => split <;> exact .binary _ h _
    all_goals exact .binary _ h _

omit [Rounding] in
/-- Zeros of both kinds give alike results when the same is added to them or subtracted. -/
theorem zero_simplified {operation : Operation}
    (hsum : operation = .plus ∨ operation = .minus) {c : Expr} (hc : c.IsOpen) :
    Alike (simplified operation (.num 0) c)
      (simplified operation (.num (.real (.finite 0))) c) := by
  have hwhole : (Expr.num 0).isConstant 0 = true := by decide
  have hreal : (Expr.num (.real (.finite 0))).isConstant 0 = true := by decide
  obtain rfl | rfl := hsum
  · simp only [simplified, hwhole, hreal, if_true]
    exact .refl c
  · simp only [simplified, isConstant_of_isOpen hc, Bool.false_eq_true, if_false]
    cases c with
    | num n => exact absurd rfl (hc n)
    | _ => exact .binary _ .zero _

/-- A sum or difference of zeros is a zero, and of the kind of the first. -/
theorem combine_zero (hzero : Rounding.round 0 = .finite 0) {operation : Operation}
    (hsum : operation = .plus ∨ operation = .minus) :
    Agree Alike (combine operation (.num 0) (.num 0))
      (combine operation (.num (.real (.finite 0))) (.num 0)) := by
  have hadd : (Quantity.finite 0).add (.finite 0) = .finite 0 := by
    rw [Quantity.add, Rat.add_zero, hzero]
  have hsub : (Quantity.finite 0).sub (.finite 0) = .finite 0 := rfl
  obtain rfl | rfl := hsum
  · have hreal : (Number.real (.finite 0)).add 0 = .ok (.real (.finite 0)) := by
      rw [Number.add, Number.combine_real_zero hzero, hadd]
    show Agree Alike (.ok (.num 0)) (((Number.real (.finite 0)).add 0).map .num)
    rw [hreal]
    exact .ok .zero
  · have hreal : (Number.real (.finite 0)).sub 0 = .ok (.real (.finite 0)) := by
      rw [Number.sub, Number.combine_real_zero hzero, hsub]
    show Agree Alike (.ok (.num 0)) (((Number.real (.finite 0)).sub 0).map .num)
    rw [hreal]
    exact .ok .zero

/-- **Alike expressions stay alike** when the same is added to both or subtracted from both. -/
theorem Alike.combine (hzero : Rounding.round 0 = .finite 0) {operation : Operation}
    (hsum : operation = .plus ∨ operation = .minus) {a b c : Expr} (h : Alike a b)
    (hc : c.IsVariable) :
    Agree Alike (Expr.combine operation a c) (Expr.combine operation b c) := by
  cases h with
  | refl e => exact .refl .refl _
  | zero =>
    by_cases hopen : c.IsOpen
    · rw [combine_of_isOpen (.inr hopen), combine_of_isOpen (.inr hopen)]
      exact .ok (zero_simplified hsum hopen)
    · obtain ⟨n, rfl⟩ : ∃ n, c = .num n := by simpa [IsOpen] using hopen
      rw [hc n rfl]
      exact combine_zero hzero hsum
  | binary operation h d =>
    rw [combine_of_isOpen (.inl (isOpen_binary _ _ _)),
      combine_of_isOpen (.inl (isOpen_binary _ _ _))]
    exact .ok (Alike.simplified hsum (.binary _ h _) (isOpen_binary _ _ _) (isOpen_binary _ _ _) c)

end Expr
end Montage
