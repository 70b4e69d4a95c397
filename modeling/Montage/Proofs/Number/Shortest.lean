import Std.Data.String.ToNat
import Montage.Number.Decimal
import Montage.Proofs.Number.Grid

/-!
# The shortest decimal reads back

The decimal with which a quantity is written is rounded to that quantity again
(`IsOnGrid.binary64_shortest`).  Of the decimals that are tried this is part of the trial; what
has to be shown is that one of the trials succeeds.  The last one does: a decimal of 17 digits next
to a point of the grid is nearer to it than half the way to its neighbours.
-/

set_option autoImplicit false

namespace Montage

/-! ## Numerals

The decimal numeral of a natural number: it has a digit, holds nothing else, and tells the number. -/

theorem toList_toString_nat (n : Nat) : (toString n).toList = Nat.toDigits 10 n :=
  Nat.toList_repr

theorem toList_toString_int (n : Int) :
    (toString n).toList = (if n < 0 then ['-'] else []) ++ Nat.toDigits 10 n.natAbs := by
  cases n with
  | ofNat n =>
    show n.repr.toList = _
    have hn : ¬ Int.ofNat n < 0 := Int.not_lt.mpr (Int.natCast_nonneg n)
    rw [Nat.toList_repr, if_neg hn]
    rfl
  | negSucc n =>
    show ("-" ++ (n + 1).repr).toList = _
    rw [String.toList_append, Nat.toList_repr, if_pos (Int.negSucc_lt_zero n)]
    rfl

theorem isDigit_of_mem_toDigits {n : Nat} {c : Char} (h : c ∈ Nat.toDigits 10 n) :
    c.isDigit = true :=
  Nat.isDigit_of_mem_toDigits (by decide) (by decide) h

/-- A numeral opens with a digit. -/
theorem toDigits_eq_cons (n : Nat) :
    ∃ d ds, Nat.toDigits 10 n = d :: ds ∧ d.isDigit = true := by
  obtain ⟨d, ds, h⟩ := List.exists_cons_of_ne_nil (Nat.toDigits_ne_nil (n := n) (b := 10))
  exact ⟨d, ds, h, isDigit_of_mem_toDigits (h ▸ List.mem_cons_self)⟩

/-- No zero opens a numeral but that of zero. -/
theorem head?_toDigits_ne {n : Nat} (hn : 0 < n) : (Nat.toDigits 10 n).head? ≠ some '0' := by
  induction n using Nat.strongRecOn with
  | ind n ih =>
    rcases Nat.lt_or_ge n 10 with hlt | hge
    · have hdigit : ∀ m < 10, 0 < m → some m.digitChar ≠ some '0' := by decide
      rw [Nat.toDigits_of_lt_base hlt]
      exact hdigit n hlt hn
    · have hfront := ih (n / 10) (by omega) (by omega)
      obtain ⟨d, ds, hdigits⟩ := List.exists_cons_of_ne_nil
        (Nat.toDigits_ne_nil (n := n / 10) (b := 10))
      rw [Nat.toDigits_of_base_le (by decide) hge, hdigits]
      rwa [hdigits] at hfront

theorem toDigits_injective {m n : Nat} (h : Nat.toDigits 10 m = Nat.toDigits 10 n) : m = n := by
  rw [← Nat.toList_repr, ← Nat.toList_repr, String.toList_inj] at h
  exact Nat.repr_injective h

/-! ## The place of the first digit -/

theorem ten_zpow_pos (e : Int) : (0 : Rat) < 10 ^ e := zpow_pos (by norm_num) e

/-- A natural number has as many digits as powers of ten do not pass it. -/
theorem length_toDigits_bounds {n : Nat} (hn : 0 < n) :
    (10 : Rat) ^ ((Nat.toDigits 10 n).length - 1 : Int) ≤ n
      ∧ (n : Rat) < 10 ^ ((Nat.toDigits 10 n).length : Int) := by
  obtain ⟨k, hk⟩ := Nat.exists_eq_succ_of_ne_zero (List.length_pos_iff.mpr
    (Nat.toDigits_ne_nil (n := n) (b := 10))).ne'
  have hhigh := (Nat.length_toDigits_le_iff (n := n) (by decide : 1 < 10) (Nat.succ_pos k)).mp hk.le
  rw [hk]
  constructor
  · rw [Nat.cast_succ, add_sub_cancel_right, zpow_natCast]
    rcases Nat.eq_zero_or_pos k with rfl | hpos
    · rw [pow_zero]
      exact_mod_cast hn
    · have hlow := mt (Nat.length_toDigits_le_iff (n := n) (by decide : 1 < 10) hpos).mpr (by omega)
      exact_mod_cast not_lt.mp hlow
  · rw [zpow_natCast]
    exact_mod_cast hhigh

/-- The exponent counts the tenfolds of one that do not pass a positive rational. -/
theorem decimalExponent_spec {q : Rat} (hq : 0 < q) :
    (10 : Rat) ^ decimalExponent q ≤ q ∧ q < 10 ^ (decimalExponent q + 1) := by
  have hnum : 0 < q.num := Rat.num_pos.mpr hq
  have hvalue := natAbs_num_div_den hq
  obtain ⟨hnumLow, hnumHigh⟩ := length_toDigits_bounds (Int.natAbs_pos.mpr hnum.ne')
  obtain ⟨hdenLow, hdenHigh⟩ := length_toDigits_bounds q.pos
  have hden : (0 : Rat) < q.den := Nat.cast_pos.mpr q.pos
  rw [decimalExponent]
  generalize ((Nat.toDigits 10 q.num.natAbs).length : Int) = m at *
  generalize ((Nat.toDigits 10 q.den).length : Int) = n at *
  split
  · rename_i h
    refine ⟨h, ?_⟩
    calc q = q.num.natAbs / q.den := hvalue.symm
      _ < 10 ^ m / 10 ^ (n - 1) :=
          div_lt_div₀ hnumHigh hdenLow (ten_zpow_pos _).le (ten_zpow_pos _)
      _ = 10 ^ (m - n + 1) := by
          rw [← zpow_sub₀ (by norm_num)]
          congr 1
          omega
  · rename_i h
    rw [sub_add_cancel]
    refine ⟨?_, not_le.mp h⟩
    calc (10 : Rat) ^ (m - n - 1) = 10 ^ (m - 1) / 10 ^ n := by
          rw [← zpow_sub₀ (by norm_num)]
          congr 1
          omega
      _ ≤ q.num.natAbs / q.den := div_le_div₀ (Nat.cast_nonneg _) hnumLow hden hdenHigh.le
      _ = q := hvalue

/-- The point of a decimal tells between which powers of ten its value is. -/
theorem Decimal.point_spec {d : Decimal} (hd : 0 < d.significand) :
    (10 : Rat) ^ (d.point - 1) ≤ d.value ∧ d.value < 10 ^ d.point := by
  obtain ⟨hlow, hhigh⟩ := length_toDigits_bounds hd
  have hpos := ten_zpow_pos d.exponent
  constructor
  · calc (10 : Rat) ^ (d.point - 1)
        = 10 ^ ((Nat.toDigits 10 d.significand).length - 1 : Int) * 10 ^ d.exponent := by
          rw [← zpow_add₀ (by norm_num), Decimal.point, Decimal.digits]
          congr 1
          omega
      _ ≤ d.value := mul_le_mul_of_nonneg_right hlow hpos.le
  · calc d.value
        < 10 ^ ((Nat.toDigits 10 d.significand).length : Int) * 10 ^ d.exponent :=
          mul_lt_mul_of_pos_right hhigh hpos
      _ = 10 ^ d.point := by rw [← zpow_add₀ (by norm_num), Decimal.point, Decimal.digits]

/-! ## The nearest of two neighbours -/

/-- The integer nearest to a positive rational is one of its two neighbours. -/
theorem nearestInt_of_pos {q : Rat} (hq : 0 < q) :
    (nearestInt q).toNat = q.floor.toNat ∨ (nearestInt q).toNat = q.floor.toNat + 1 := by
  have hnum : 0 < q.num := Rat.num_pos.mpr hq
  have hfloor : q.floor.toNat = q.num.natAbs / q.den := by
    rw [Rat.floor_def]
    have : q.num = (q.num.natAbs : Int) := by omega
    rw [this, Int.natAbs_natCast]
    norm_cast
  rw [nearestInt, if_neg hnum.not_gt, Int.toNat_natCast, hfloor, divNearest]
  split
  · exact .inl rfl
  · exact .inr rfl

/-- The integer nearest to a rational that is not below zero is a natural number, and off by half of
one at most. -/
theorem exists_nearestInt {q : Rat} (hq : 0 ≤ q) :
    ∃ n : Nat, nearestInt q = n ∧ |q - n| ≤ 1 / 2 := by
  obtain rfl | hpos := hq.eq_or_lt
  · exact ⟨0, by decide, by norm_num⟩
  have hvalue := natAbs_num_div_den hpos
  rw [nearestInt, if_neg (Rat.num_pos.mpr hpos).not_gt]
  exact ⟨_, rfl, by simpa only [hvalue] using abs_sub_divNearest_le q.num.natAbs q.pos⟩

/-- What a rational that is not below zero is rounded to is a whole number of the last place, and off
by half of it at most. -/
theorem exists_nearestPlace {q : Rat} (hq : 0 ≤ q) (places : Nat) :
    ∃ m : Nat, nearestPlace q places = m / 10 ^ places ∧ |q * 10 ^ places - m| ≤ 1 / 2 := by
  obtain ⟨m, hm, hnear⟩ := exists_nearestInt (q := q * 10 ^ places) (by positivity)
  refine ⟨m, ?_, hnear⟩
  rw [nearestPlace, zpow_natCast, hm, Int.cast_natCast]

/-- Rounding to places does not pass a number that has no more places. -/
theorem le_nearestPlace {x q : Rat} {n : Nat} (places : Nat) (hx : x * 10 ^ places = n) (h : x ≤ q)
    (hq : 0 ≤ q) : x ≤ nearestPlace q places := by
  obtain ⟨m, hplace, hnear⟩ := exists_nearestPlace hq places
  have hpower : (0 : Rat) < 10 ^ places := by positivity
  have hscaled : x * 10 ^ places ≤ q * 10 ^ places := by gcongr
  have hle : n ≤ m := by
    have : (n : Rat) < m + 1 := by linarith [(abs_le.mp hnear).2]
    exact Nat.lt_succ_iff.mp (by exact_mod_cast this)
  rw [hplace, le_div_iff₀ hpower, hx]
  exact_mod_cast hle

theorem nearestPlace_le {x q : Rat} {n : Nat} (places : Nat) (hx : x * 10 ^ places = n) (h : q ≤ x)
    (hq : 0 ≤ q) : nearestPlace q places ≤ x := by
  obtain ⟨m, hplace, hnear⟩ := exists_nearestPlace hq places
  have hpower : (0 : Rat) < 10 ^ places := by positivity
  have hscaled : q * 10 ^ places ≤ x * 10 ^ places := by gcongr
  have hle : m ≤ n := by
    have : (m : Rat) < n + 1 := by linarith [(abs_le.mp hnear).1]
    exact Nat.lt_succ_iff.mp (by exact_mod_cast this)
  rw [hplace, div_le_iff₀ hpower, hx]
  exact_mod_cast hle

/-! ## The trials -/

/-- A trial that succeeds gives a decimal that reads back. -/
theorem readsBackAs_of_decimalWith {q : Rat} (hq : 0 < q) {count : Nat} {d : Decimal}
    (h : decimalWith q count = some d) : readsBackAs q d = true := by
  rw [decimalWith] at h
  have hnearest := nearestInt_of_pos (div_pos hq (ten_zpow_pos (decimalExponent q + 1 - count)))
  split at h
  · rename_i hbelow habove
    cases h
    rcases hnearest with heq | heq <;> rw [heq]
    · exact hbelow
    · exact habove
  · rename_i hbelow _
    cases h
    exact hbelow
  · rename_i _ habove
    cases h
    exact habove
  · cases h

/-- **The trial with 17 digits succeeds** at every point of the grid. -/
theorem IsOnGrid.decimalWith_ne_none {q : Rat} (h : IsOnGrid q) (hq : 0 < q) :
    decimalWith q 17 ≠ none := by
  obtain ⟨u, k, hk, hqk, hu, -⟩ := exists_isUnitOf_of_binary64 hq h hq.ne'
  have hunit := two_zpow_pos u
  set e := decimalExponent q + 1 - ((17 : Nat) : Int) with he
  have hten := ten_zpow_pos e
  have hstep : (10 : Rat) ^ 16 * 10 ^ e ≤ q := by
    have := (decimalExponent_spec hq).1
    rwa [show decimalExponent q = ((16 : Nat) : Int) + e by omega, zpow_add₀ (by norm_num),
      zpow_natCast] at this
  obtain ⟨n, hn, hcount⟩ := exists_nearestInt (div_pos hq hten).le
  have hnear : |(n : Rat) * 10 ^ e - q| ≤ 10 ^ e / 2 := by
    rw [div_sub' hten.ne', abs_div, abs_of_pos hten, div_le_iff₀ hten] at hcount
    rw [abs_sub_comm, mul_comm (n : Rat)]
    linarith
  have hback : readsBackAs q ⟨n, e⟩ = true := by
    rw [abs_le] at hnear
    have hpos : (0 : Rat) < n * 10 ^ e := by linarith
    have hbelow := hu.below
    rw [readsBackAs, beq_iff_eq, Decimal.value]
    refine h.binary64_of_near hq hpos hu (abs_lt.mpr ⟨by linarith, by linarith⟩) ?_
    refine or_iff_not_imp_left.mpr fun hleast ↦ or_iff_not_imp_left.mpr fun hlow ↦ ?_
    rw [not_le] at hlow
    linarith
  have hneighbour := nearestInt_of_pos (div_pos hq hten)
  rw [hn, Int.toNat_natCast] at hneighbour
  rw [decimalWith]
  rcases hneighbour with heq | heq
  · rw [show readsBackAs q ⟨(q / 10 ^ e).floor.toNat, e⟩ = true by rwa [← heq]]
    split <;> simp_all
  · rw [show readsBackAs q ⟨(q / 10 ^ e).floor.toNat + 1, e⟩ = true by rwa [← heq]]
    split <;> simp_all

theorem readsBackAs_of_shortestFrom {q : Rat} (h : IsOnGrid q) (hq : 0 < q) :
    ∀ {tries count : Nat}, tries + count = 18 → 0 < tries →
      readsBackAs q (shortestFrom q tries count) = true := by
  intro tries
  induction tries with
  | zero => exact fun _ hpos ↦ absurd hpos (lt_irrefl 0)
  | succ tries ih =>
    intro count hsum _
    rw [shortestFrom]
    split
    · exact readsBackAs_of_decimalWith hq ‹_›
    · rename_i hnone
      rcases Nat.eq_zero_or_pos tries with rfl | hpos
      · rw [show count = 17 by omega] at hnone
        exact absurd hnone (h.decimalWith_ne_none hq)
      · exact ih (by omega) hpos

/-! ## Zeros at the end -/

/-- Dropping zeros at the end does not change what a decimal stands for. -/
theorem Decimal.value_dropZeros (fuel s : Nat) (e : Int) :
    (Decimal.dropZeros fuel s e).value = (Decimal.mk s e).value := by
  induction fuel generalizing s e with
  | zero => rfl
  | succ fuel ih =>
    rw [Decimal.dropZeros]
    split
    · rename_i hmod
      obtain ⟨n, rfl⟩ : 10 ∣ s := Nat.dvd_of_mod_eq_zero hmod
      rw [ih, Decimal.value, Decimal.value, Nat.mul_div_cancel_left n (by decide),
        zpow_add_one₀ (by norm_num)]
      push_cast
      linarith
    · rfl

/-- **The shortest decimal of a positive point of the grid is rounded to it again.** -/
theorem IsOnGrid.binary64_shortest {q : Rat} (h : IsOnGrid q) (hq : 0 < q) :
    binary64 (shortest q).value = .finite q := by
  have hback := readsBackAs_of_shortestFrom h hq (show 17 + 1 = 18 from rfl) (by decide)
  rw [shortest, Decimal.value_dropZeros]
  exact beq_iff_eq.mp hback

end Montage
