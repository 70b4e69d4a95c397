import Montage.Proofs.Number.Exact
import Montage.Proofs.Number.Landing
import Montage.Proofs.Number.Shortest
import Montage.Proofs.Subtitle.Timecode

/-!
# Milliseconds are counted back

The seconds of a written time are its milliseconds divided by a thousand, rounded to the grid.
Writing multiplies them by a thousand, which is rounded once more, and takes the nearest whole
number.  Below `2 ^ 50` milliseconds the two roundings are off by less than a half together, so that
the whole number is the one that was divided (`TimeNotation.counts_of_millis`).

Between a text and the number that is divided in the end, a time is a whole number of milliseconds,
and nothing is rounded: a number that is written in any of the notations is read as this number
(`TimeNotation.isWrittenFor_textOfUnits`), hundredths as ten milliseconds each.  A text need not be
written by the clock to be read; it may hold ninety minutes, or say its hours with zeros in front.
What is written for the number that it says is by the clock, and says the same.

Only the hours have no limit of their own.  A time that is on the grid is far too early for its
hours to be refused (`lt_digitLimit_of_isFinite`).
-/

set_option autoImplicit false

namespace Montage

attribute [local instance] Rounding.binary64

/-! ## Thousandths -/

/-- A whole number of thousandths is a quantity, unless it is beyond the grid. -/
theorem div_thousand_eq_ok {n : Int} {a : Number} : (Number.whole n).div 1000 = .ok a ↔
    (∀ negative, binary64 (n / 1000) ≠ .infinite negative) ∧ a = .real (binary64 (n / 1000)) := by
  have hquotient : (mkRat n 1 / mkRat 1000 1 : Rat) = n / 1000 := by
    rw [Rat.mkRat_eq_div, Rat.mkRat_eq_div]
    norm_num
  rw [show (1000 : Number) = .whole 1000 from rfl, Number.div, if_neg (by decide)]
  split
  · rename_i hzero
    have hround : binary64 (n / 1000) = .finite 0 := by
      rw [hzero, Int.cast_zero, zero_div]
      exact isOnGrid_zero
    rw [hround]
    simp [Quantity.zero, eq_comm]
  · have hround : Rounding.round (mkRat n 1 / mkRat 1000 1) = binary64 (n / 1000) :=
      congrArg binary64 hquotient
    rw [hround]
    cases binary64 (n / 1000) <;> simp [eq_comm]

/-! ## Times -/

/-- A time whose seconds are on the grid: its hours have few enough digits to be read, and it is not
too late. -/
def Timestamp.IsCountable (time : Timestamp) : Prop :=
  ∃ millis, time.millis = .ok millis ∧ (binary64 (millis / 1000)).isFinite = true

namespace Timestamp

theorem seconds?_eq_ok {time : Timestamp} {x : Quantity} : time.seconds? = .ok x ↔
    ∃ millis, time.millis = .ok millis ∧ x = binary64 (millis / 1000) ∧ x.isFinite = true := by
  have hround (millis : Nat) : (∀ negative, binary64 (millis / 1000) ≠ .infinite negative) ↔
      (binary64 (millis / 1000)).isFinite = true := by
    obtain ⟨q, -, hq⟩ | hq := binary64_keepsSigns.nonnegative (millis / 1000) (by positivity)
    · have hq : binary64 (millis / 1000) = .finite q := hq
      simp [hq, Quantity.isFinite]
    · have hq : binary64 (millis / 1000) = .infinite false := hq
      simp [hq, Quantity.isFinite]
  constructor
  · intro h
    obtain ⟨millis, hmillis, h⟩ := bind_eq_ok.mp h
    obtain ⟨a, ha, h⟩ := bind_eq_ok.mp h
    obtain ⟨hfinite, rfl⟩ := div_thousand_eq_ok.mp ha
    cases h
    exact ⟨millis, hmillis, rfl, (hround millis).mp hfinite⟩
  · rintro ⟨millis, hmillis, rfl, hfinite⟩
    exact bind_eq_ok.mpr ⟨millis, hmillis, bind_eq_ok.mpr
      ⟨_, div_thousand_eq_ok.mpr ⟨(hround millis).mpr hfinite, rfl⟩, rfl⟩⟩

theorem exists_seconds? {time : Timestamp} : (∃ x, time.seconds? = .ok x) ↔ time.IsCountable := by
  simp only [seconds?_eq_ok]
  constructor
  · rintro ⟨_, millis, hmillis, rfl, hfinite⟩
    exact ⟨millis, hmillis, hfinite⟩
  · rintro ⟨millis, hmillis, hfinite⟩
    exact ⟨_, millis, hmillis, rfl, hfinite⟩

/-- A text is no time, or is one that has to be on the grid. -/
theorem exists_read {s : List Char} : (∃ x, read s = .ok x) ↔
    ∀ time, ofText? s = some time → time.IsCountable := by
  rw [read]
  cases htime : ofText? s with
  | none => simp
  | some time =>
    simp only [Option.some.injEq, forall_eq', ← exists_seconds?, map_eq_ok]
    constructor
    · rintro ⟨_, x, hx, -⟩
      exact ⟨x, hx⟩
    · rintro ⟨x, hx⟩
      exact ⟨some x, x, hx, rfl⟩

/-- A time is read, or there is none. -/
theorem isSome_of_read {s : List Char} {x : Option Quantity} (h : read s = .ok x) :
    x.isSome = (ofText? s).isSome := by
  rw [read] at h
  cases htime : ofText? s with
  | none =>
    rw [htime] at h
    cases h
    rfl
  | some time =>
    rw [htime] at h
    obtain ⟨_, -, rfl⟩ := map_eq_ok.mp h
    rfl

end Timestamp

/-! ## There and back -/

/-- A number of milliseconds that is small enough for its seconds to say it. -/
def IsShort (millis : Nat) : Prop := millis < 2 ^ 50

instance (millis : Nat) : Decidable (IsShort millis) := inferInstanceAs (Decidable (_ < _))

/-- The seconds of some milliseconds are near to their quotient. -/
theorem exists_near_seconds {n : Nat} (hpos : 0 < n) (hn : IsShort n) :
    ∃ x, binary64 (n / 1000) = .finite x ∧ 0 < x ∧ |x - n / 1000| ≤ n / 1000 / 2 ^ 53 := by
  have hone : (1 : Rat) ≤ n := by exact_mod_cast hpos
  have hmany : (n : Rat) < 2 ^ 50 := by exact_mod_cast hn
  exact exists_near_binary64 (fullPrecision_le.trans (by linarith)) (lt_binaryLimit (by linarith))

/-- The seconds of some milliseconds are on the grid, and no zero with a sign. -/
theorem exists_seconds {n : Nat} (hn : IsShort n) : ∃ x, binary64 (n / 1000) = .finite x := by
  obtain rfl | hpos := Nat.eq_zero_or_pos n
  · rw [Nat.cast_zero, zero_div]
    exact ⟨0, isOnGrid_zero⟩
  · obtain ⟨x, hx, -⟩ := exists_near_seconds hpos hn
    exact ⟨x, hx⟩

namespace TimeNotation

/-- The milliseconds of the seconds of some milliseconds are these milliseconds. -/
theorem units_of_millis {n : Nat} (hn : IsShort n) :
    srt.units (.real (binary64 (n / 1000))) = .ok n := by
  obtain rfl | hpos := Nat.eq_zero_or_pos n
  · exact toOption_eq_some.mp (by decide +kernel)
  have hone : (1 : Rat) ≤ n := by exact_mod_cast hpos
  have hmany : (n : Rat) < 2 ^ 50 := by exact_mod_cast hn
  obtain ⟨x, hx, hxpos, hxnear⟩ := exists_near_seconds hpos hn
  have hbounds := abs_le.mp hxnear
  obtain ⟨y, hy, hypos, hynear⟩ := exists_near_binary64 (q := x * 1000)
    (fullPrecision_le.trans (by linarith)) (lt_binaryLimit (by linarith))
  have hproduct : (Number.real (.finite x)).mul (.whole 1000) = .ok (.real (.finite y)) := by
    have hthousand : (Number.whole 1000).toQuantity = .ok (.finite 1000) :=
      binary64_isGrid.toQuantity_natCast (n := 1000) (by omega)
    rw [Number.mul_whole hthousand, Quantity.finite_mul (by linarith)]
    exact congrArg (Except.ok ∘ Number.real) hy
  have hround : (Number.real (.finite y)).roundWhole = .ok (nearestInt y) := rfl
  have hnearest : (nearestInt y).toNat = n := by
    obtain ⟨k, hk, hnear⟩ := exists_nearestInt hypos.le
    rw [hk, Int.toNat_natCast]
    refine eq_of_abs_sub_lt hnear ?_
    have := abs_le.mp hynear
    rw [abs_lt]
    constructor <;> linarith
  rw [hx, units]
  exact bind_eq_ok.mpr ⟨_, hproduct, bind_eq_ok.mpr ⟨_, hround, congrArg Except.ok hnearest⟩⟩

/-- **A number of milliseconds below `2 ^ 50` comes back** from the seconds that are read for it. -/
theorem counts_of_millis {n : Nat} (hn : IsShort n) : srt.Counts n (binary64 (n / 1000)) := by
  obtain ⟨x, hx⟩ := exists_seconds hn
  have few : n < 10 ^ digitLimit :=
    (hn.trans (by decide : 2 ^ 50 < 10 ^ 16)).trans_le (Nat.pow_le_pow_right (by decide) (by decide))
  have hmillis := millis_stampOf srt_isStandard n (by decide) few
  rw [show 3 - srt.unitWidth = 0 from rfl, pow_zero, mul_one] at hmillis
  constructor
  · exact bind_eq_ok.mpr ⟨n, units_of_millis hn, rfl⟩
  · rw [hx]
    exact Timestamp.seconds?_eq_ok.mpr ⟨n, hmillis, hx.symm, rfl⟩

end TimeNotation

/-! ## Times on the grid -/

/-- A number of milliseconds has few enough digits if its seconds are on the grid. -/
theorem lt_digitLimit_of_isFinite {n : Nat} (h : (binary64 (n / 1000)).isFinite = true) :
    n < 10 ^ digitLimit := by
  by_contra hmany
  have hlimit : 2 * binaryLimit * 1000 ≤ 10 ^ digitLimit := by
    have hbits : 2 * binaryLimit * 1000 ≤ 10 ^ 400 := by decide +kernel
    obtain ⟨more, hmore⟩ : ∃ more, digitLimit = 400 + more := ⟨3900, rfl⟩
    rw [hmore, pow_add]
    exact Nat.le_trans hbits (Nat.le_mul_of_pos_right _ (Nat.pow_pos (by decide)))
  have hlarge : (2 * binaryLimit * 1000 : Rat) ≤ n := by exact_mod_cast hlimit.trans (not_lt.mp hmany)
  rw [binary64_of_large (by linarith)] at h
  cases h

/-! ## Exact texts -/

/-- A text that is a time as a whole, with minutes and seconds by the clock, and says a number of
milliseconds; its seconds are that number divided by a thousand. -/
structure IsWrittenFor (millis : Nat) (text : String) : Prop where
  whole : ∃ time, Timestamp.take? text.toList = some (time, []) ∧ time.millis = .ok millis ∧
    natOfDigits time.minutes < 60 ∧ natOfDigits time.seconds < 60
  read : Timestamp.read text.toList = .ok (some (binary64 (millis / 1000)))

namespace TimeNotation

/-- **A number of units is read back from what is written for it.** -/
theorem isWrittenFor_textOfUnits {style : TimeNotation} (standard : style.IsStandard)
    (hwidth : style.hourWidth ≤ digitLimit) {n millis : Nat}
    (hmillis : millis = n * 10 ^ (3 - style.unitWidth))
    (finite : (binary64 (millis / 1000)).isFinite = true) :
    IsWrittenFor millis (style.textOfUnits n) := by
  have few : n < 10 ^ digitLimit := by
    refine lt_of_le_of_lt ?_ (lt_digitLimit_of_isFinite finite)
    rw [hmillis]
    exact Nat.le_mul_of_pos_right n (Nat.pow_pos (by decide))
  have hstamp := millis_stampOf standard n hwidth few
  rw [← hmillis] at hstamp
  have htake := take_textOfUnits standard n [] (by simp)
  rw [List.append_nil] at htake
  refine ⟨⟨_, htake, hstamp, ?_, ?_⟩, ?_⟩
  · rw [stampOf, natOfDigits_padZeros]
    exact minutes_ofUnits_lt n standard.positive
  · rw [stampOf, natOfDigits_padZeros]
    exact seconds_ofUnits_lt n standard.positive
  · rw [read_textOfUnits standard, Timestamp.seconds?_eq_ok.mpr ⟨millis, hstamp, rfl, finite⟩]
    rfl

variable {millis : Nat} (finite : (binary64 (millis / 1000)).isFinite = true)
include finite

/-- Milliseconds are written exactly with a comma and with a point. -/
theorem isWrittenFor_millis :
    IsWrittenFor millis (srt.textOfUnits millis) ∧ IsWrittenFor millis (vtt.textOfUnits millis) :=
  ⟨isWrittenFor_textOfUnits srt_isStandard (by decide) (Nat.mul_one _).symm finite,
    isWrittenFor_textOfUnits vtt_isStandard (by decide) (Nat.mul_one _).symm finite⟩

end TimeNotation

/-- **Times are exact as whole numbers.**  Milliseconds whose seconds are on the grid are read back from
either text that is written for them, and hundredths as ten milliseconds each.  A text that is read at all
says a whole number of milliseconds, and what is written for this number says it again, by the clock. -/
theorem Timestamp.written_exactly :
    (∀ n : Nat, (binary64 (n / 1000)).isFinite = true →
      IsWrittenFor n (TimeNotation.srt.textOfUnits n) ∧
        IsWrittenFor n (TimeNotation.vtt.textOfUnits n)) ∧
    (∀ n : Nat, (binary64 ((10 * n : Nat) / 1000)).isFinite = true →
      IsWrittenFor (10 * n) (TimeNotation.ass.textOfUnits n)) ∧
    ∀ (text : List Char) (x : Quantity), Timestamp.read text = .ok (some x) →
      ∃ time total, ofText? text = some time ∧ time.millis = .ok total ∧
        x = binary64 (total / 1000) ∧ IsWrittenFor total (TimeNotation.srt.textOfUnits total) ∧
          IsWrittenFor total (TimeNotation.vtt.textOfUnits total) := by
  refine ⟨fun n finite ↦ TimeNotation.isWrittenFor_millis finite, fun n finite ↦
    TimeNotation.isWrittenFor_textOfUnits TimeNotation.ass_isStandard (by decide)
      (Nat.mul_comm 10 n) finite,
    fun text x h ↦ ?_⟩
  rw [read] at h
  cases htime : ofText? text with
  | none =>
    rw [htime] at h
    cases h
  | some time =>
    rw [htime] at h
    obtain ⟨y, hy, heq⟩ := map_eq_ok.mp h
    cases heq
    obtain ⟨total, htotal, rfl, finite⟩ := seconds?_eq_ok.mp hy
    exact ⟨time, total, rfl, htotal, rfl, TimeNotation.isWrittenFor_millis finite⟩

/-- A time with ninety-nine minutes and seconds is read, and written by the clock; hours grow beyond two
digits, and hundredths are ten milliseconds each. -/
theorem Timestamp.ninetyNine_written :
    (binary64 ((363599999 : Nat) / 1000)).isFinite = true ∧
      (IsWrittenFor 363599999 "100:59:59,999" ∧ IsWrittenFor 363599999 "100:59:59.999") ∧
    (binary64 ((10 * 5 : Nat) / 1000)).isFinite = true ∧ IsWrittenFor 50 "0:00:00.05" ∧
    Timestamp.read " 1:99:99.5 ".toList = .ok (some (.finite (19279 / 2))) ∧
      IsWrittenFor 9639500 "02:40:39,500" ∧ IsWrittenFor 9639500 "02:40:39.500" := by
  obtain ⟨hmillis, hhundredths, htexts⟩ := Timestamp.written_exactly
  have hlong : (binary64 ((363599999 : Nat) / 1000)).isFinite = true := by decide +kernel
  have hshort : (binary64 ((10 * 5 : Nat) / 1000)).isFinite = true := by decide +kernel
  have hread : Timestamp.read " 1:99:99.5 ".toList = .ok (some (.finite (19279 / 2))) :=
    toOption_eq_some.mp (by decide +kernel)
  obtain ⟨time, total, htime, htotal, -, hsrt, hvtt⟩ := htexts _ _ hread
  cases htime
  cases htotal
  exact ⟨hlong, hmillis _ hlong, hshort, hhundredths 5 hshort, hread, hsrt, hvtt⟩

end Montage
