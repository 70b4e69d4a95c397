import Montage.Proofs.Document.Field
import Montage.Proofs.Number.Span
import Montage.Proofs.Text.Words
import Montage.ReadingTime

/-!
# Reading times

A reading time is the seconds that come out of the speed, or one of the bounds
(`ReadingPace.time_eq_ok`), and it is not below the lower bound.

Every text has a reading time at a speed above zero (`ReadingPace.exists_time`).  The only limit is
that of whole numbers that become quantities: none of the bounds, and no number of words, is too
large for that.
-/

set_option autoImplicit false

namespace Montage

variable [rounding : Rounding]

omit rounding in
/-- A number, and not a large whole number. -/
def Json.IsModest (value : Json) : Prop := ∃ n, value.number? = some n ∧ n.IsModest

/-- A count that the grid reaches beyond can be divided by every number above zero. -/
theorem Number.exists_div (grid : rounding.IsGrid) (monotone : rounding.IsMonotone)
    {count limit : Nat} (hlimit : Montage.IsOnGrid limit) (hcount : count ≤ limit) {speed : Number}
    (hspeed : Number.lt 0 speed = true) : ∃ x, (whole count).div speed = .ok (.real x) := by
  rcases speed with b | y
  · have hb : (0 : Rat) < b := (Quantity.lt_iff_value? rfl rfl).mp hspeed
    have hbone : (1 : Rat) ≤ b := by exact_mod_cast (by exact_mod_cast hb : 0 < b)
    have hquotient : mkRat count 1 / mkRat b 1 = (count : Rat) / b := by
      rw [Rat.mkRat_one, Rat.mkRat_one, Int.cast_natCast]
    -- the quotient is between zero and the limit, and so is what it is rounded to
    have hlow := monotone.monotone 0 ((count : Rat) / b) (by positivity)
    have hhigh := monotone.monotone ((count : Rat) / b) limit
      ((div_le_self (Nat.cast_nonneg count) hbone).trans (Nat.cast_le.mpr hcount))
    rw [monotone.zero] at hlow
    rw [grid.fixed _ hlimit] at hhigh
    obtain ⟨r, -, -, hfinite⟩ := Quantity.exists_finite_of_le hlow hhigh
    rw [div, if_neg (by rintro rfl; exact absurd hb (lt_irrefl _))]
    split
    · exact ⟨_, rfl⟩
    rw [hquotient]
    split
    · rename_i negative hround
      rw [hround] at hfinite
      cases hfinite
    · exact ⟨_, rfl⟩
  · obtain ⟨x, hx⟩ := exists_toQuantity_whole grid monotone (k := count) hlimit hcount
    have hy : y.eq (.finite 0) = false := by
      rw [← Bool.not_eq_true]
      intro hzero
      exact absurd ((Quantity.lt_iff_value? rfl (Quantity.value?_of_eq hzero)).mp hspeed)
        (lt_irrefl _)
    refine ⟨x.div y, ?_⟩
    rw [div, hx]
    · show (if y.eq (.finite 0) then _ else _) = _
      rw [hy]
      rfl
    · rintro _ _ _ ⟨⟩

namespace ReadingPace

variable {pace : ReadingPace} {text time : Json}

/-- **A reading time is a number of seconds or a bound, and it is not below the lower bound.** -/
theorem time_eq_ok (h : pace.time text = .ok time) :
    ∃ seconds shortest, pace.seconds text = .ok seconds ∧ pace.shortest.number? = some shortest ∧
      (time = pace.shortest ∨ (time = .num seconds ∨ time = pace.longest) ∧
        ∃ n, time.number? = some n ∧ shortest.lt n = true) := by
  obtain ⟨seconds, hseconds, h⟩ := bind_eq_ok.mp h
  obtain ⟨capped, hcapped, h⟩ := bind_eq_ok.mp h
  obtain ⟨longest, -, hcapped⟩ := bind_eq_ok.mp hcapped
  obtain ⟨shortest, hshortest, h⟩ := bind_eq_ok.mp h
  obtain ⟨n, hn, h⟩ := bind_eq_ok.mp h
  refine ⟨seconds, shortest, hseconds, Json.number_eq_ok.mp hshortest, ?_⟩
  have hcases : capped = .num seconds ∨ capped = pace.longest := by
    rw [← pure_eq_ok.mp hcapped]
    split
    · exact .inl rfl
    · exact .inr rfl
  rw [← pure_eq_ok.mp h]
  split
  · rename_i hlt
    exact .inr ⟨hcases, n, Json.number_eq_ok.mp hn, hlt⟩
  · exact .inl rfl

/-- A pace at which texts can be read: the speed is above zero, and all else is a number of no great
size. -/
structure IsReadable (pace : ReadingPace) : Prop where
  speed : ∃ n, pace.wordsPerMinute.number? = some n ∧ Number.lt 0 n = true
  padding : pace.padding.IsModest
  longest : pace.longest.IsModest
  shortest : pace.shortest.IsModest

theorem exists_seconds (grid : rounding.IsGrid) (monotone : rounding.IsMonotone)
    (readable : pace.IsReadable) {s : String} (hs : wordCount s ≤ Number.modestLimit) :
    ∃ x, pace.seconds (.str s) = .ok (.real x) := by
  obtain ⟨speed, hspeed, hpositive⟩ := readable.speed
  obtain ⟨padding, hpadding, modest⟩ := readable.padding
  obtain ⟨minutes, hminutes⟩ := Number.exists_div grid monotone Number.isOnGrid_modestLimit hs
    hpositive
  obtain ⟨y, hy⟩ := modest.exists_toQuantity grid monotone
  have hsixty : (60 : Number).toQuantity = .ok (.finite 60) :=
    grid.toQuantity_natCast (n := 60) (by omega)
  have hle : speed.le 0 = false := by
    rw [← Bool.not_eq_true]
    intro hle
    exact absurd (Quantity.lt_of_lt_of_le hpositive hle) (by decide)
  refine ⟨(minutes.mul (.finite 60)).add y, ?_⟩
  rw [seconds, bind_of_ok (Json.number_eq_ok.mpr hspeed), hle]
  show (Number.whole (wordCount s)).div speed >>= _ = _
  rw [bind_of_ok hminutes, bind_of_ok (Number.real_mul hsixty minutes),
    bind_of_ok (Json.number_eq_ok.mpr hpadding)]
  exact Number.real_add hy _

/-- **Every text has a reading time**, unless whole numbers are too large. -/
theorem exists_time (grid : rounding.IsGrid) (monotone : rounding.IsMonotone)
    (readable : pace.IsReadable) {s : String} (hs : wordCount s ≤ Number.modestLimit) :
    ∃ time, pace.time (.str s) = .ok time ∧ time.IsModest := by
  obtain ⟨x, hseconds⟩ := exists_seconds grid monotone readable hs
  obtain ⟨longest, hlongest, -⟩ := readable.longest
  obtain ⟨shortest, hshortest, -⟩ := readable.shortest
  obtain ⟨capped, hcapped, n, hn, modest⟩ : ∃ capped, pace.capped (.real x) = .ok capped ∧
      capped.IsModest := by
    refine ⟨_, bind_of_ok (Json.number_eq_ok.mpr hlongest) _, ?_⟩
    split
    · exact ⟨_, rfl, by rintro _ ⟨⟩⟩
    · exact readable.longest
  refine ⟨if shortest.lt n then capped else pace.shortest, ?_, ?_⟩
  · rw [time, bind_of_ok hseconds, bind_of_ok hcapped, raised,
      bind_of_ok (Json.number_eq_ok.mpr hshortest), bind_of_ok (Json.number_eq_ok.mpr hn)]
    rfl
  · split
    · exact ⟨n, hn, modest⟩
    · exact readable.shortest

end ReadingPace
end Montage
