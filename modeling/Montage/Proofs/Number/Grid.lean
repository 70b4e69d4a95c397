import Mathlib.Algebra.Order.Field.Power
import Mathlib.Algebra.Order.Ring.Rat
import Mathlib.Data.Nat.Cast.Order.Field
import Mathlib.Data.Rat.Cast.Defs
import Mathlib.Tactic.FieldSimp
import Mathlib.Tactic.Linarith
import Mathlib.Tactic.NormNum
import Montage.Proofs.Number.Order

/-!
# The binary grid

What rounding to the binary grid does, said about rationals: the unit of a positive rational is the
power of two of which it counts between `2 ^ 52` and `2 ^ 53`, or the least power there is
(`IsUnitOf`), and rounding takes the nearest multiple of that unit.

From this come the two facts on which reading and writing rest.  What rounding yields, rounding
leaves as it is (`isOnGrid_of_binary64`); and what is nearer to a point of the grid than half the
way to its neighbours is rounded to that point (`IsOnGrid.binary64_of_near`).  The neighbour below a
power of two is only half as far away as the one above, so that the second fact has two cases.
-/

set_option autoImplicit false

namespace Montage

/-! ## To a natural number -/

/-- A quotient and the natural number nearest to it differ by at most a half. -/
theorem abs_sub_divNearest_le (num : Nat) {den : Nat} (hden : 0 < den) :
    |(num / den : Rat) - divNearest num den| ≤ 1 / 2 := by
  have hden' : (0 : Rat) < den := Nat.cast_pos.mpr hden
  have hdiv : (den : Rat) * (num / den : Nat) + (num % den : Nat) = num := by
    exact_mod_cast Nat.div_add_mod num den
  have hmod : num % den < den := Nat.mod_lt _ hden
  have hquotient : (num / den : Rat) = (num / den : Nat) + (num % den : Nat) / (den : Rat) := by
    field_simp
    linarith
  have hfraction : 0 ≤ ((num % den : Nat) : Rat) / den := by positivity
  have hbelow : ((num % den : Nat) : Rat) / den < 1 := by
    rw [div_lt_one hden']
    exact_mod_cast hmod
  rw [hquotient, divNearest, abs_le]
  split
  · rename_i h
    have hhalf : ((num % den : Nat) : Rat) / den ≤ 1 / 2 := by
      rw [div_le_div_iff₀ hden' two_pos]
      have : 2 * (num % den) ≤ den := by omega
      have : (2 : Rat) * (num % den : Nat) ≤ den := by exact_mod_cast this
      linarith
    constructor <;> linarith
  · rename_i h
    have hhalf : 1 / 2 ≤ ((num % den : Nat) : Rat) / den := by
      rw [div_le_div_iff₀ two_pos hden']
      have : den ≤ 2 * (num % den) := by omega
      have : (den : Rat) ≤ 2 * (num % den : Nat) := by exact_mod_cast this
      linarith
    rw [Nat.cast_succ]
    constructor <;> linarith

/-- Natural numbers within a half of the same number, one of them strictly, are equal. -/
theorem eq_of_abs_sub_lt {x : Rat} {m n : Nat} (hm : |x - m| ≤ 1 / 2) (hn : |x - n| < 1 / 2) :
    m = n := by
  rw [abs_le] at hm
  rw [abs_lt] at hn
  have hlt : (m : Rat) < n + 1 := by linarith
  have hgt : (n : Rat) < m + 1 := by linarith
  have hlt : m < n + 1 := by exact_mod_cast hlt
  have hgt : n < m + 1 := by exact_mod_cast hgt
  omega

/-! ## The unit of a rational -/

theorem two_zpow_pos (u : Int) : (0 : Rat) < 2 ^ u := zpow_pos two_pos u

theorem two_zpow_add_natCast (u : Int) (n : Nat) : (2 : Rat) ^ (u + n) = 2 ^ n * 2 ^ u := by
  rw [add_comm, zpow_add₀ two_ne_zero, zpow_natCast]

/-- The exponent counts the doublings of one that do not pass a positive quotient. -/
theorem binaryExponent_spec {num den : Nat} (hnum : 0 < num) (hden : 0 < den) :
    (2 : Rat) ^ binaryExponent num den ≤ num / den
      ∧ (num / den : Rat) < 2 ^ (binaryExponent num den + 1) := by
  have hden' : (0 : Rat) < den := Nat.cast_pos.mpr hden
  have hnumLow : (2 : Rat) ^ (num.log2 : Int) ≤ num := by
    exact_mod_cast Nat.log2_self_le hnum.ne'
  have hnumHigh : (num : Rat) < 2 ^ ((num.log2 : Int) + 1) := by
    exact_mod_cast Nat.lt_log2_self (n := num)
  have hdenLow : (2 : Rat) ^ (den.log2 : Int) ≤ den := by
    exact_mod_cast Nat.log2_self_le hden.ne'
  have hdenHigh : (den : Rat) < 2 ^ ((den.log2 : Int) + 1) := by
    exact_mod_cast Nat.lt_log2_self (n := den)
  generalize hguess : (num.log2 : Int) - den.log2 = guess
  have hfits : (if 0 ≤ guess then den * 2 ^ guess.toNat ≤ num else den ≤ num * 2 ^ (-guess).toNat)
      ↔ (2 : Rat) ^ guess ≤ num / den := by
    rw [le_div_iff₀ hden']
    split
    · rename_i h
      obtain ⟨n, rfl⟩ := Int.eq_ofNat_of_zero_le h
      rw [Int.toNat_natCast, zpow_natCast, mul_comm]
      norm_cast
    · rename_i h
      obtain ⟨n, hn⟩ := Int.eq_ofNat_of_zero_le (show 0 ≤ -guess by omega)
      rw [hn, Int.toNat_natCast, show guess = -(n : Int) by omega, zpow_neg, zpow_natCast,
        inv_mul_le_iff₀ (by positivity), mul_comm]
      norm_cast
  rw [binaryExponent, hguess]
  by_cases hfit : (2 : Rat) ^ guess ≤ num / den
  · rw [if_pos (hfits.mpr hfit)]
    refine ⟨hfit, ?_⟩
    calc (num / den : Rat) < 2 ^ ((num.log2 : Int) + 1) / 2 ^ (den.log2 : Int) :=
          div_lt_div₀ hnumHigh hdenLow (two_zpow_pos _).le (two_zpow_pos _)
      _ = 2 ^ (guess + 1) := by
          rw [← zpow_sub₀ two_ne_zero]
          congr 1
          omega
  · rw [if_neg (fun h ↦ hfit (hfits.mp h)), sub_add_cancel]
    refine ⟨?_, not_le.mp hfit⟩
    calc (2 : Rat) ^ (guess - 1) = 2 ^ (num.log2 : Int) / 2 ^ ((den.log2 : Int) + 1) := by
          rw [← zpow_sub₀ two_ne_zero]
          congr 1
          omega
      _ ≤ num / den := div_le_div₀ (Nat.cast_nonneg _) hnumLow hden' hdenHigh.le

/-- The unit in the last place of a positive rational is `2 ^ u`: it counts fewer than `2 ^ 53` of
them, and at least `2 ^ 52` unless there is no smaller unit. -/
structure IsUnitOf (u : Int) (q : Rat) : Prop where
  least : -1074 ≤ u
  below : q < 2 ^ 53 * 2 ^ u
  above : u = -1074 ∨ (2 ^ 52 * 2 ^ u : Rat) ≤ q

theorem unitExponent_isUnitOf {num den : Nat} (hnum : 0 < num) (hden : 0 < den) :
    IsUnitOf (unitExponent num den) (num / den) := by
  obtain ⟨hlow, hhigh⟩ := binaryExponent_spec hnum hden
  rw [unitExponent]
  generalize binaryExponent num den = b at hlow hhigh ⊢
  refine ⟨le_max_right _ _, hhigh.trans_le ?_, ?_⟩
  · rw [← two_zpow_add_natCast]
    exact zpow_le_zpow_right₀ one_le_two (by omega)
  · rcases le_total (-1074) (b - 52) with h | h
    · right
      rwa [max_eq_left h, ← two_zpow_add_natCast, Nat.cast_ofNat, sub_add_cancel]
    · exact .inl (max_eq_right h)

/-- The unit of the larger one of two numbers is not smaller. -/
theorem IsUnitOf.le_of_le {u v : Int} {p q : Rat} (hu : IsUnitOf u p) (hv : IsUnitOf v q)
    (hle : p ≤ q) : u ≤ v := by
  rcases hu.above with rfl | habove
  · exact hv.least
  · have hlt := (habove.trans hle).trans_lt hv.below
    rw [← two_zpow_add_natCast, ← two_zpow_add_natCast, zpow_lt_zpow_iff_right₀ one_lt_two] at hlt
    omega

theorem IsUnitOf.unique {u v : Int} {q : Rat} (hu : IsUnitOf u q) (hv : IsUnitOf v q) :
    u = v :=
  le_antisymm (hu.le_of_le hv le_rfl) (hv.le_of_le hu le_rfl)

/-- A number counts at most `2 ^ 53` units, to the nearest. -/
theorem IsUnitOf.count_le {u : Int} {k : Nat} {q : Rat} (hu : IsUnitOf u q)
    (hk : |q / 2 ^ u - k| ≤ 1 / 2) : k ≤ 2 ^ 53 := by
  have hcount : q / 2 ^ u < 2 ^ 53 := (div_lt_iff₀ (two_zpow_pos u)).mpr hu.below
  rw [abs_le] at hk
  have : (k : Rat) < 2 ^ 53 + 1 := by linarith
  exact Nat.lt_succ_iff.mp (by exact_mod_cast this)

/-- Unless its unit is the least one, a number counts at least `2 ^ 52`, to the nearest. -/
theorem IsUnitOf.le_count {u : Int} {k : Nat} {q : Rat} (hu : IsUnitOf u q) (hleast : u ≠ -1074)
    (hk : |q / 2 ^ u - k| ≤ 1 / 2) : 2 ^ 52 ≤ k := by
  have hcount : (2 ^ 52 : Rat) ≤ q / 2 ^ u :=
    (le_div_iff₀ (two_zpow_pos u)).mpr (hu.above.resolve_left hleast)
  rw [abs_le] at hk
  have : ((2 ^ 52 : Nat) : Rat) < k + 1 := by
    push_cast
    linarith
  exact Nat.lt_succ_iff.mp (by exact_mod_cast this)

/-- The count of units is the natural number nearest to the quotient by the unit. -/
theorem abs_sub_unitCount_le (num : Nat) {den : Nat} (hden : 0 < den) :
    |(num / den : Rat) / 2 ^ unitExponent num den - unitCount num den| ≤ 1 / 2 := by
  rw [unitCount]
  split
  · rename_i h
    obtain ⟨n, hn⟩ := Int.eq_ofNat_of_zero_le h
    have := abs_sub_divNearest_le num (show 0 < den * 2 ^ n by positivity)
    rwa [hn, Int.toNat_natCast, zpow_natCast, div_div, ← Nat.cast_ofNat (R := Rat),
      ← Nat.cast_pow, ← Nat.cast_mul]
  · rename_i h
    obtain ⟨n, hn⟩ := Int.eq_ofNat_of_zero_le (show 0 ≤ -unitExponent num den by omega)
    have := abs_sub_divNearest_le (num * 2 ^ n) hden
    rw [hn, Int.toNat_natCast, show unitExponent num den = -(n : Int) by omega, zpow_neg,
      zpow_natCast, div_inv_eq_mul, div_mul_eq_mul_div]
    push_cast at this
    exact this

/-! ## Rounding to the grid -/

/-- A positive rational is the quotient of its numerator, as a natural number, by its
denominator. -/
theorem natAbs_num_div_den {q : Rat} (hq : 0 < q) : (q.num.natAbs / q.den : Rat) = q := by
  conv_rhs => rw [← Rat.num_div_den q]
  rw [Nat.cast_natAbs, abs_of_pos (Rat.num_pos.mpr hq)]

theorem two_pow_le_binaryLimit : (2 ^ 53 : Rat) ≤ binaryLimit := by
  have hlimit : 2 ^ 53 ≤ binaryLimit := by decide +kernel
  exact_mod_cast hlimit

/-- A positive rational is rounded to the nearest multiple of its unit. -/
theorem binary64_of_pos {q : Rat} (hq : 0 < q) :
    ∃ (u : Int) (k : Nat), IsUnitOf u q ∧ |q / 2 ^ u - k| ≤ 1 / 2
      ∧ binary64 q = if (k * 2 ^ u : Rat) = 0 then .finite 0
        else if (binaryLimit : Rat) ≤ k * 2 ^ u then .infinite false
        else .finite (k * 2 ^ u) := by
  have hnum : 0 < q.num := Rat.num_pos.mpr hq
  have habs : 0 < q.num.natAbs := Int.natAbs_pos.mpr hnum.ne'
  have hvalue := natAbs_num_div_den hq
  refine ⟨unitExponent q.num.natAbs q.den, unitCount q.num.natAbs q.den, ?_, ?_, ?_⟩
  · simpa only [hvalue] using unitExponent_isUnitOf habs q.pos
  · simpa only [hvalue] using abs_sub_unitCount_le q.num.natAbs q.pos
  · rw [binary64, if_neg hnum.ne']
    dsimp only
    rw [decide_eq_false hnum.not_gt]
    simp only [if_neg hnum.not_gt]

/-- A rational that is nearer to a multiple of its unit than half a unit is rounded to it. -/
theorem binary64_of_near {q : Rat} (hq : 0 < q) {u : Int} {k : Nat} (hu : IsUnitOf u q)
    (hk : |q - k * 2 ^ u| < 2 ^ u / 2) (hpos : 0 < k) (hlimit : (k * 2 ^ u : Rat) < binaryLimit) :
    binary64 q = .finite (k * 2 ^ u) := by
  obtain ⟨v, l, hv, hl, heq⟩ := binary64_of_pos hq
  obtain rfl := hu.unique hv
  have hcount : |q / 2 ^ u - k| < 1 / 2 := by
    have hunit := two_zpow_pos u
    rw [div_sub' hunit.ne', abs_div, abs_of_pos hunit, div_lt_div_iff₀ hunit two_pos,
      mul_comm _ (k : Rat)]
    linarith
  obtain rfl := eq_of_abs_sub_lt hl hcount
  have hne : (l * 2 ^ u : Rat) ≠ 0 :=
    mul_ne_zero (Nat.cast_ne_zero.mpr hpos.ne') (two_zpow_pos u).ne'
  rw [heq, if_neg hne, if_neg (not_le.mpr hlimit)]

/-- **Rounding is off by at most one part in `2 ^ 53`**, away from the ends of the grid. -/
theorem exists_near_binary64 {q : Rat} (hlow : (2 ^ 52 * 2 ^ (-1074 : Int) : Rat) ≤ q)
    (hhigh : 2 * q < binaryLimit) :
    ∃ v, binary64 q = .finite v ∧ 0 < v ∧ |v - q| ≤ q / 2 ^ 53 := by
  have hq : 0 < q := (mul_pos (by norm_num) (two_zpow_pos _)).trans_le hlow
  obtain ⟨u, k, hu, hk, heq⟩ := binary64_of_pos hq
  have hunit := two_zpow_pos u
  have habove : (2 ^ 52 * 2 ^ u : Rat) ≤ q := by
    rcases hu.above with rfl | h
    · exact hlow
    · exact h
  have hnear : |k * 2 ^ u - q| ≤ q / 2 ^ 53 := by
    have hcount : |q - k * 2 ^ u| ≤ 1 / 2 * 2 ^ u := by
      rwa [div_sub' hunit.ne', abs_div, abs_of_pos hunit, div_le_iff₀ hunit,
        mul_comm _ (k : Rat)] at hk
    rw [abs_sub_comm]
    linarith
  have hbounds := abs_le.mp hnear
  have hpos : (0 : Rat) < k * 2 ^ u := by linarith
  refine ⟨k * 2 ^ u, ?_, hpos, hnear⟩
  rw [heq, if_neg hpos.ne', if_neg]
  rw [not_le]
  linarith

/-- The numbers of the grid get less precise far below a thousandth. -/
theorem fullPrecision_le : (2 ^ 52 * 2 ^ (-1074 : Int) : Rat) ≤ 1 / 1024 := by
  have hsum : (2 ^ 52 * 2 ^ (-1074 : Int) : Rat) = 2 ^ (-1074 + 52 : Int) :=
    (two_zpow_add_natCast (-1074) 52).symm
  rw [hsum]
  exact (zpow_le_zpow_right₀ one_le_two (by decide : (-1074 + 52 : Int) ≤ -10)).trans
    (by norm_num)

/-- **Below one, rounding is off by at most one part in `2 ^ 53` of one**, and above by that part of
the number. -/
theorem exists_near_binary64_of_nonneg {q : Rat} (hq : 0 ≤ q) (hhigh : 2 * q < binaryLimit) :
    ∃ v, binary64 q = .finite v ∧ 0 ≤ v ∧ |v - q| ≤ max q 1 / 2 ^ 53 := by
  rcases le_or_gt (2 ^ 52 * 2 ^ (-1074 : Int) : Rat) q with hlow | hlow
  · obtain ⟨v, hv, hpos, hnear⟩ := exists_near_binary64 hlow hhigh
    exact ⟨v, hv, hpos.le, hnear.trans (by gcongr; exact le_max_left q 1)⟩
  obtain rfl | hpos := hq.eq_or_lt
  · exact ⟨0, by rw [binary64, if_pos Rat.num_zero], le_rfl, by norm_num⟩
  -- the unit is the least one, of which one counts more than `2 ^ 1000`
  obtain ⟨u, k, hu, hk, heq⟩ := binary64_of_pos hpos
  have hunit := two_zpow_pos u
  obtain rfl : u = -1074 := by
    refine hu.above.resolve_right fun habove ↦ ?_
    have hleast : (2 ^ (-1074 : Int) : Rat) ≤ 2 ^ u := zpow_le_zpow_right₀ one_le_two hu.least
    linarith
  have hnear : |k * 2 ^ (-1074 : Int) - q| ≤ max q 1 / 2 ^ 53 := by
    rw [div_sub' hunit.ne', abs_div, abs_of_pos hunit, div_le_iff₀ hunit,
      mul_comm _ (k : Rat)] at hk
    rw [abs_sub_comm]
    linarith [fullPrecision_le, le_max_right q 1]
  have hbounds := abs_le.mp hnear
  have hone : q < 1 := by linarith [fullPrecision_le]
  rw [max_eq_right hone.le] at hbounds
  by_cases hzero : (k * 2 ^ (-1074 : Int) : Rat) = 0
  · rw [hzero] at hnear
    exact ⟨0, by rw [heq, if_pos hzero], le_rfl, hnear⟩
  · refine ⟨_, ?_, mul_nonneg (Nat.cast_nonneg k) hunit.le, hnear⟩
    rw [heq, if_neg hzero, if_neg]
    rw [not_le]
    linarith [two_pow_le_binaryLimit]

/-- What is below half of the smallest number of the grid is rounded to zero. -/
theorem binary64_of_small {q : Rat} (hq : 0 < q) (hsmall : q < 2 ^ (-1074 : Int) / 2) :
    binary64 q = .finite 0 := by
  obtain ⟨u, k, hu, hk, heq⟩ := binary64_of_pos hq
  have hleast := two_zpow_pos (-1074)
  obtain rfl : u = -1074 := by
    refine hu.above.resolve_right fun habove ↦ ?_
    have hunit : (2 ^ (-1074 : Int) : Rat) ≤ 2 ^ u := zpow_le_zpow_right₀ one_le_two hu.least
    linarith
  have hcount : q / 2 ^ (-1074 : Int) < 1 / 2 := by
    rw [div_lt_iff₀ hleast]
    linarith
  have hk : (k : Rat) < 1 := by linarith [(abs_le.mp hk).1]
  obtain rfl : k = 0 := by
    have : k < 1 := by exact_mod_cast hk
    omega
  rw [heq, if_pos (by rw [Nat.cast_zero, zero_mul])]

/-- What is at least twice the limit of the grid is rounded to an infinity. -/
theorem binary64_of_large {q : Rat} (hlarge : (2 * binaryLimit : Rat) ≤ q) :
    binary64 q = .infinite false := by
  have hlimit : (1 : Rat) ≤ binaryLimit := by linarith [two_pow_le_binaryLimit]
  have hq : 0 < q := by linarith
  obtain ⟨u, k, hu, hk, heq⟩ := binary64_of_pos hq
  have hunit := two_zpow_pos u
  have hhalf : (2 ^ u : Rat) ≤ q := by
    obtain rfl | habove := hu.above
    · linarith [fullPrecision_le, two_zpow_pos (-1074)]
    · linarith
  have hnear : q ≤ k * 2 ^ u + 2 ^ u / 2 := by
    have : q / 2 ^ u ≤ k + 1 / 2 := by linarith [(abs_le.mp hk).2]
    rw [div_le_iff₀ hunit] at this
    linarith
  have hvalue : (binaryLimit : Rat) ≤ k * 2 ^ u := by linarith
  rw [heq, if_neg (by linarith), if_pos hvalue]

theorem lt_binaryLimit {q : Rat} (hq : q < 2 ^ 52) : q < binaryLimit := by
  linarith [two_pow_le_binaryLimit]

/-- Rounding forgets the sign and puts it on again. -/
theorem binary64_neg {q : Rat} (hq : 0 < q) : binary64 (-q) = (binary64 q).neg := by
  have hnum : 0 < q.num := Rat.num_pos.mpr hq
  have hbelow : (-q).num < 0 := by rw [Rat.num_neg_eq_neg_num]; omega
  rw [binary64, binary64, Rat.den_neg_eq_den, if_neg hbelow.ne, if_neg hnum.ne',
    show (-q).num.natAbs = q.num.natAbs by rw [Rat.num_neg_eq_neg_num, Int.natAbs_neg]]
  simp only [decide_eq_true hbelow, decide_eq_false hnum.not_gt, if_pos hbelow,
    if_neg hnum.not_gt]
  split
  · rfl
  rename_i hne
  split
  · rfl
  · rw [Quantity.neg.eq_def]
    dsimp only
    rw [if_neg fun h ↦ hne (Rat.num_eq_zero.mp h)]

/-! ## Points of the grid -/

/-- A rational stands on the binary grid if rounding leaves it as it is. -/
def IsOnGrid (q : Rat) : Prop := binary64 q = .finite q

instance (q : Rat) : Decidable (IsOnGrid q) := inferInstanceAs (Decidable (_ = _))

theorem isOnGrid_zero : IsOnGrid 0 := by rw [IsOnGrid, binary64, if_pos Rat.num_zero]

theorem isOnGrid_neg {q : Rat} (h : IsOnGrid q) : IsOnGrid (-q) := by
  rw [IsOnGrid] at h ⊢
  rcases lt_trichotomy q 0 with hneg | rfl | hpos
  · have hback := binary64_neg (q := -q) (by linarith)
    rw [neg_neg, h] at hback
    cases hq : binary64 (-q) with
    | finite r =>
      rw [hq, Quantity.neg] at hback
      split at hback
      · cases hback
      · rw [Quantity.finite.inj hback, neg_neg]
    | negativeZero =>
      rw [hq] at hback
      rw [Quantity.finite.inj hback] at hneg
      exact absurd hneg (lt_irrefl _)
    | infinite | undefined =>
      rw [hq] at hback
      cases hback
  · exact isOnGrid_zero
  · rw [binary64_neg hpos, h, Quantity.neg, if_neg (Rat.num_pos.mpr hpos).ne']

/-- A multiple of a unit is a point of the grid. -/
theorem isOnGrid_of_isUnitOf {u : Int} {k : Nat} (hk : 0 < k) (hu : IsUnitOf u (k * 2 ^ u))
    (hlimit : (k * 2 ^ u : Rat) < binaryLimit) : IsOnGrid (k * 2 ^ u) := by
  have hpos : (0 : Rat) < k * 2 ^ u := mul_pos (Nat.cast_pos.mpr hk) (two_zpow_pos u)
  refine binary64_of_near hpos hu ?_ hk hlimit
  rw [sub_self, abs_zero]
  exact half_pos (two_zpow_pos u)

/-- Natural numbers of at most 53 bits are points of the grid. -/
theorem isOnGrid_natCast {n : Nat} (h : n < 2 ^ 53) : IsOnGrid n := by
  obtain rfl | hn := Nat.eq_zero_or_pos n
  · exact isOnGrid_zero
  have hlog : n.log2 ≤ 52 := Nat.lt_succ_iff.mp ((Nat.log2_lt hn.ne').mpr h)
  have hlow : (2 : Rat) ^ (n.log2 : Int) ≤ n := by exact_mod_cast Nat.log2_self_le hn.ne'
  have hhigh : (n : Rat) < 2 ^ ((n.log2 : Int) + 1) := by
    exact_mod_cast Nat.lt_log2_self (n := n)
  -- the unit of a number with fewer bits divides one
  obtain ⟨shift, hshift⟩ := Nat.exists_eq_add_of_le hlog
  have hcount : ((n * 2 ^ shift : Nat) : Rat) * 2 ^ (-(shift : Int)) = n := by
    rw [zpow_neg, zpow_natCast, Nat.cast_mul, Nat.cast_pow, Nat.cast_ofNat, mul_assoc,
      mul_inv_cancel₀ (by positivity), mul_one]
  rw [← hcount]
  refine isOnGrid_of_isUnitOf (by positivity) ⟨by omega, ?_, .inr ?_⟩ ?_ <;> rw [hcount]
  · rwa [← two_zpow_add_natCast, show -(shift : Int) + (53 : Nat) = n.log2 + 1 by omega]
  · rwa [← two_zpow_add_natCast, show -(shift : Int) + (52 : Nat) = n.log2 by omega]
  · have hfew : (n : Rat) < 2 ^ 53 := by exact_mod_cast h
    exact hfew.trans_le two_pow_le_binaryLimit

theorem isOnGrid_one : IsOnGrid 1 := by exact_mod_cast isOnGrid_natCast (n := 1) (by omega)

/-- What a positive rational is rounded to, if not to zero or beyond the limit, is a multiple of
its own unit: where `2 ^ 53` units were counted, of the next one. -/
theorem exists_isUnitOf_of_binary64 {q v : Rat} (hq : 0 < q) (h : binary64 q = .finite v)
    (hv : v ≠ 0) :
    ∃ (u : Int) (k : Nat), 0 < k ∧ v = k * 2 ^ u ∧ IsUnitOf u v ∧ v < binaryLimit := by
  obtain ⟨u, k, hu, hk, heq⟩ := binary64_of_pos hq
  rw [h] at heq
  split at heq
  · exact absurd (Quantity.finite.inj heq) hv
  split at heq
  · cases heq
  rename_i hne hlimit
  rw [not_le] at hlimit
  obtain rfl := Quantity.finite.inj heq
  have hunit := two_zpow_pos u
  have hpos : 0 < k := Nat.pos_of_ne_zero fun h0 ↦ hne (by rw [h0, Nat.cast_zero, zero_mul])
  have hge : u = -1074 ∨ 2 ^ 52 ≤ k := or_iff_not_imp_left.mpr fun hleast ↦ hu.le_count hleast hk
  rcases Nat.lt_or_ge k (2 ^ 53) with hlt | hge'
  · refine ⟨u, k, hpos, rfl, ⟨hu.least, ?_, hge.imp_right fun hge ↦ ?_⟩, hlimit⟩
    · exact mul_lt_mul_of_pos_right (by exact_mod_cast hlt) hunit
    · exact mul_le_mul_of_nonneg_right (by exact_mod_cast hge) hunit.le
  · obtain rfl : k = 2 ^ 53 := le_antisymm (hu.count_le hk) hge'
    have hnext : (((2 ^ 53 : Nat) : Rat) * 2 ^ u) = ((2 ^ 52 : Nat) : Rat) * 2 ^ (u + 1) := by
      rw [zpow_add_one₀ two_ne_zero]
      push_cast
      linarith
    refine ⟨u + 1, 2 ^ 52, by positivity, hnext, ⟨by have := hu.least; omega, ?_, .inr ?_⟩, hlimit⟩
    · rw [hnext]
      exact mul_lt_mul_of_pos_right (by norm_num) (two_zpow_pos _)
    · rw [hnext]
      push_cast
      exact le_rfl

/-- **Rounding leaves as it is what rounding yields.** -/
theorem isOnGrid_of_binary64 {q v : Rat} (h : binary64 q = .finite v) : IsOnGrid v := by
  have aux : ∀ {q v : Rat}, 0 < q → binary64 q = .finite v → IsOnGrid v := by
    intro q v hq h
    by_cases hv : v = 0
    · exact hv ▸ isOnGrid_zero
    · obtain ⟨u, k, hk, rfl, hu, hlimit⟩ := exists_isUnitOf_of_binary64 hq h hv
      exact isOnGrid_of_isUnitOf hk hu hlimit
  rcases lt_trichotomy q 0 with hneg | rfl | hpos
  · have hback := binary64_neg (q := -q) (by linarith)
    rw [neg_neg, h] at hback
    cases hq : binary64 (-q) with
    | finite r =>
      rw [hq, Quantity.neg] at hback
      split at hback
      · cases hback
      · rw [Quantity.finite.inj hback]
        exact isOnGrid_neg (aux (by linarith) hq)
    | negativeZero =>
      rw [hq] at hback
      rw [Quantity.finite.inj hback]
      exact isOnGrid_zero
    | infinite | undefined =>
      rw [hq] at hback
      cases hback
  · rw [isOnGrid_zero] at h
    exact Quantity.finite.inj h ▸ isOnGrid_zero
  · exact aux hpos h

/-- Half a point of the grid that is not below one is a point of the grid: its unit is not the least
one. -/
theorem IsOnGrid.half {q : Rat} (h : IsOnGrid q) (hq : 1 ≤ q) : IsOnGrid (q / 2) := by
  have hpos : 0 < q := zero_lt_one.trans_le hq
  obtain ⟨u, k, hk, rfl, hu, hlimit⟩ := exists_isUnitOf_of_binary64 hpos h hpos.ne'
  have hleast : u ≠ -1074 := by
    rintro rfl
    have hbelow := hu.below
    linarith [fullPrecision_le]
  have habove := hu.above.resolve_left hleast
  have hunit : (2 : Rat) ^ u = 2 * 2 ^ (u - 1) := by
    rw [mul_comm, ← zpow_add_one₀ two_ne_zero, sub_add_cancel]
  have hvalue : (k * 2 ^ u / 2 : Rat) = k * 2 ^ (u - 1) := by
    rw [hunit, mul_left_comm, mul_div_cancel_left₀ _ two_ne_zero]
  have hbelow := hu.below
  have hge := hu.least
  rw [hvalue]
  refine isOnGrid_of_isUnitOf hk ⟨by omega, ?_, .inr ?_⟩ ?_
  · rw [hunit] at hbelow
    linarith
  · rw [hunit] at habove
    linarith
  · rw [← hvalue]
    linarith

/-- Twice a point of the grid is a point of the grid below the limit. -/
theorem IsOnGrid.double {q : Rat} (h : IsOnGrid q) (hpos : 0 < q) (hlimit : 2 * q < binaryLimit) :
    IsOnGrid (2 * q) := by
  obtain ⟨u, k, hk, rfl, hu, -⟩ := exists_isUnitOf_of_binary64 hpos h hpos.ne'
  have hbelow := hu.below
  by_cases habove : (2 ^ 52 * 2 ^ u : Rat) ≤ k * 2 ^ u
  · have hunit : (2 : Rat) ^ (u + 1) = 2 * 2 ^ u := by
      rw [zpow_add_one₀ two_ne_zero, mul_comm]
    have hvalue : (2 * (k * 2 ^ u) : Rat) = k * 2 ^ (u + 1) := by
      rw [hunit, mul_left_comm]
    have hge := hu.least
    rw [hvalue] at hlimit ⊢
    refine isOnGrid_of_isUnitOf hk ⟨by omega, ?_, .inr ?_⟩ hlimit
    · rw [hunit]
      linarith
    · rw [hunit]
      linarith
  · -- the unit is the least one, and twice as many of it are still too few for the next one
    have hvalue : (2 * (k * 2 ^ u) : Rat) = (2 * k : Nat) * 2 ^ u := by
      rw [Nat.cast_mul, Nat.cast_ofNat, mul_assoc]
    rw [hvalue] at hlimit ⊢
    refine isOnGrid_of_isUnitOf (by omega) ⟨hu.least, ?_, .inl (hu.above.resolve_right habove)⟩ hlimit
    rw [← hvalue]
    linarith

/-- **What is near to a point of the grid is rounded to it**: nearer than half its unit, and below
a power of two nearer than a quarter. -/
theorem IsOnGrid.binary64_of_near {q x : Rat} (h : IsOnGrid q) (hq : 0 < q) (hx : 0 < x) {u : Int}
    (hu : IsUnitOf u q) (hnear : |x - q| < 2 ^ u / 2)
    (hbelow : u = -1074 ∨ (2 ^ 52 * 2 ^ u : Rat) ≤ x ∨ q - x < 2 ^ u / 4) :
    binary64 x = .finite q := by
  obtain ⟨v, k, hk, rfl, hv, hlimit⟩ := exists_isUnitOf_of_binary64 hq h hq.ne'
  obtain rfl := hu.unique hv
  have hunit := two_zpow_pos u
  have hk53 : k < 2 ^ 53 := by
    have : (k : Rat) < 2 ^ 53 := lt_of_mul_lt_mul_right hu.below hunit.le
    exact_mod_cast this
  have hupper : x < 2 ^ 53 * 2 ^ u := by
    have hcount : ((k + 1 : Nat) : Rat) ≤ 2 ^ 53 := by exact_mod_cast hk53
    have := mul_le_mul_of_nonneg_right hcount hunit.le
    push_cast at this
    linarith [(abs_lt.mp hnear).2]
  have hself : (u = -1074 ∨ (2 ^ 52 * 2 ^ u : Rat) ≤ x) → binary64 x = .finite (k * 2 ^ u) :=
    fun hside ↦ Montage.binary64_of_near hx ⟨hu.least, hupper, hside⟩ hnear hk hlimit
  rcases hbelow with hleast | hge | hquarter
  · exact hself (.inl hleast)
  · exact hself (.inr hge)
  by_cases hside : u = -1074 ∨ (2 ^ 52 * 2 ^ u : Rat) ≤ x
  · exact hself hside
  -- below a power of two the unit is half as large, and the power counts `2 ^ 53` of them
  rw [not_or, not_le] at hside
  obtain ⟨hleast, hlow⟩ := hside
  have hpower : k = 2 ^ 52 := by
    have hge : (2 ^ 52 : Rat) ≤ k :=
      le_of_mul_le_mul_right (hu.above.resolve_left hleast) hunit
    have hlt : (k : Rat) < 2 ^ 52 + 1 := by
      refine lt_of_mul_lt_mul_right ?_ hunit.le
      linarith [(abs_lt.mp hnear).1]
    have hge : 2 ^ 52 ≤ k := by exact_mod_cast hge
    have hlt : k < 2 ^ 52 + 1 := by exact_mod_cast hlt
    omega
  have hhalf : (2 : Rat) ^ u = 2 * 2 ^ (u - 1) := by
    rw [mul_comm, ← zpow_add_one₀ two_ne_zero, sub_add_cancel]
  have hvalue : (k * 2 ^ u : Rat) = ((2 ^ 53 : Nat) : Rat) * 2 ^ (u - 1) := by
    rw [hpower, hhalf]
    push_cast
    linarith
  have hunit' := two_zpow_pos (u - 1)
  rw [hvalue] at hlimit hquarter ⊢
  rw [hhalf] at hlow hquarter
  push_cast at hquarter
  refine Montage.binary64_of_near hx ⟨by have := hu.least; omega, ?_, .inr ?_⟩ ?_ (by positivity)
    hlimit
  · linarith
  · linarith
  · rw [abs_lt]
    push_cast
    constructor <;> linarith

/-- Whether a quantity, if it is finite, is on the grid. -/
def Quantity.IsOnGrid (x : Quantity) : Prop := ∀ q, x.value? = some q → Montage.IsOnGrid q

instance (x : Quantity) : Decidable x.IsOnGrid :=
  inferInstanceAs (Decidable (∀ q ∈ x.value?, Montage.IsOnGrid q))

end Montage
