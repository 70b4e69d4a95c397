import Mathlib.Data.List.TakeDrop
import Montage.Proofs.Number.Sign
import Montage.Proofs.Number.Text
import Montage.Proofs.Outcome
import Montage.Subtitle.Basic
import Montage.Subtitle.Timecode

/-!
# Timecodes are read back

A time that is written in one of the notations is taken off the front of a text part by part, as
long as no digit stands behind it (`TimeNotation.take_textOfUnits`), and so are the two times of a
window.

A time survives a notation if what is written reads as an equal time: the seconds of such a time
are those that its written form says, up to the sign of a zero, which no written time has.
-/

set_option autoImplicit false

namespace Montage

/-! ## Digits -/

/-- A number that fits has as many digits as the width. -/
theorem length_padZeros {width n : Nat} (hwidth : 0 < width) (hn : n < 10 ^ width) :
    (padZeros width (Nat.toDigits 10 n)).length = width := by
  have := (Nat.length_toDigits_le_iff (b := 10) (by decide) hwidth).mpr hn
  rw [padZeros, List.length_append, List.length_replicate]
  omega

theorem spanDigits_append {digits rest : List Char} (hdigits : ∀ c ∈ digits, c.isDigit = true)
    (hrest : ∀ c ∈ rest.head?, isDecimal c = false) :
    Timestamp.spanDigits (digits ++ rest) = (digits, rest) :=
  span_append (fun c hc ↦ isDecimal_of_isDigit (hdigits c hc)) hrest

/-! ## One time -/

/-- A clock with finer units says as many times the number as there are fine units in a coarse one. -/
theorem Clock.total_scaled (perSecond scale : Nat) (clock : Clock) :
    total (perSecond * scale) { clock with units := clock.units * scale } =
      total perSecond clock * scale := by
  simp only [total, Nat.add_mul, Nat.mul_assoc]

namespace TimeNotation

/-- The fraction has one to three digits, and as many as its unit needs; a comma or a point stands
before it. -/
structure IsStandard (style : TimeNotation) : Prop where
  units : style.unitsPerSecond = 10 ^ style.unitWidth
  some : 0 < style.unitWidth
  few : style.unitWidth ≤ 3
  mark : style.mark = ',' ∨ style.mark = '.'

theorem srt_isStandard : srt.IsStandard := by constructor <;> decide

theorem vtt_isStandard : vtt.IsStandard := by constructor <;> decide

theorem ass_isStandard : ass.IsStandard := by constructor <;> decide

/-- What is written for a number of units, part by part. -/
def stampOf (style : TimeNotation) (n : Nat) : Timestamp :=
  let clock := Clock.ofUnits style.unitsPerSecond n
  { hours := padZeros style.hourWidth (Nat.toDigits 10 clock.hours)
    minutes := padZeros 2 (Nat.toDigits 10 clock.minutes)
    seconds := padZeros 2 (Nat.toDigits 10 clock.seconds)
    fraction := padZeros style.unitWidth (Nat.toDigits 10 clock.units) }

theorem toList_textOfUnits (style : TimeNotation) (n : Nat) :
    (style.textOfUnits n).toList = (style.stampOf n).hours ++ ':' :: ((style.stampOf n).minutes
      ++ ':' :: ((style.stampOf n).seconds ++ style.mark :: (style.stampOf n).fraction)) := by
  simp [textOfUnits, Clock.text, stampOf, paddedNat, String.toList_append]

section

variable {style : TimeNotation} (standard : style.IsStandard) (n : Nat)

theorem minutes_ofUnits_lt (hpositive : 0 < style.unitsPerSecond) :
    (Clock.ofUnits style.unitsPerSecond n).minutes < 60 := by
  have hhour := Nat.mod_lt n (show 0 < 3600 * style.unitsPerSecond by omega)
  exact Nat.div_lt_of_lt_mul (by omega)

theorem seconds_ofUnits_lt (hpositive : 0 < style.unitsPerSecond) :
    (Clock.ofUnits style.unitsPerSecond n).seconds < 60 := by
  have hminute := Nat.mod_lt n (show 0 < 60 * style.unitsPerSecond by omega)
  exact Nat.div_lt_of_lt_mul (by omega)

theorem length_minutes (hpositive : 0 < style.unitsPerSecond) :
    (style.stampOf n).minutes.length = 2 :=
  length_padZeros (by decide) ((minutes_ofUnits_lt n hpositive).trans (by decide))

theorem length_seconds (hpositive : 0 < style.unitsPerSecond) :
    (style.stampOf n).seconds.length = 2 :=
  length_padZeros (by decide) ((seconds_ofUnits_lt n hpositive).trans (by decide))

include standard in
theorem IsStandard.positive : 0 < style.unitsPerSecond := by
  rw [standard.units]
  exact Nat.pow_pos (by decide)

include standard in
theorem length_fraction : (style.stampOf n).fraction.length = style.unitWidth := by
  refine length_padZeros standard.some ?_
  rw [← standard.units]
  exact Nat.mod_lt n standard.positive

include standard in
/-- **A written time is taken off the front of a text**, unless a digit stands behind it. -/
theorem take_textOfUnits (rest : List Char) (hrest : ∀ c ∈ rest.head?, isDecimal c = false) :
    Timestamp.take? ((style.textOfUnits n).toList ++ rest) = some (style.stampOf n, rest) := by
  have hcolon : ∀ t : List Char, ∀ c ∈ (':' :: t).head?, isDecimal c = false := by
    rintro t c ⟨⟩
    decide
  have hminutes := length_minutes n standard.positive
  have hseconds := length_seconds n standard.positive
  have hfraction := length_fraction standard n
  have hhours : (style.stampOf n).hours ≠ [] := padZeros_ne_nil _ _
  have digits : (∀ c ∈ (style.stampOf n).hours, c.isDigit = true)
      ∧ (∀ c ∈ (style.stampOf n).minutes, c.isDigit = true)
      ∧ (∀ c ∈ (style.stampOf n).seconds, c.isDigit = true)
      ∧ ∀ c ∈ (style.stampOf n).fraction, c.isDigit = true :=
    ⟨fun _ hc ↦ isDigit_of_mem_padZeros hc, fun _ hc ↦ isDigit_of_mem_padZeros hc,
      fun _ hc ↦ isDigit_of_mem_padZeros hc, fun _ hc ↦ isDigit_of_mem_padZeros hc⟩
  rw [toList_textOfUnits]
  generalize style.stampOf n = stamp at *
  obtain ⟨hours, minutes, seconds, fraction⟩ := stamp
  dsimp only at *
  obtain ⟨hhourDigits, hminuteDigits, hsecondDigits, hfractionDigits⟩ := digits
  obtain ⟨a, b, rfl⟩ := List.length_eq_two.mp hseconds
  have hspan := spanDigits_append hhourDigits (hcolon (minutes ++ ':' ::
    ([a, b] ++ style.mark :: (fraction ++ rest))))
  have hnext := spanDigits_append hminuteDigits (hcolon ([a, b] ++ style.mark :: (fraction ++ rest)))
  have htake : ((fraction ++ rest).take 3).takeWhile isDecimal = fraction := by
    have hall : ∀ c ∈ fraction, isDecimal c = true :=
      fun c hc ↦ isDecimal_of_isDigit (hfractionDigits c hc)
    have hnone : (rest.take (3 - fraction.length)).takeWhile isDecimal = [] := by
      cases rest with
      | nil => rw [List.take_nil, List.takeWhile_nil]
      | cons c rest =>
        cases 3 - fraction.length with
        | zero => rfl
        | succ k => rw [List.take_succ_cons, List.takeWhile_cons_of_neg (by simp [hrest c rfl])]
    rw [List.take_append, List.take_of_length_le (hfraction.trans_le standard.few),
      List.takeWhile_append_of_pos hall, hnone, List.append_nil]
  have hseconds : Timestamp.takeSeconds? hours minutes
      ([a, b] ++ style.mark :: (fraction ++ rest)) =
        some (⟨hours, minutes, [a, b], fraction⟩, rest) := by
    have ha := isDecimal_of_isDigit (hsecondDigits a (by simp))
    have hb := isDecimal_of_isDigit (hsecondDigits b (by simp))
    have hmark : (style.mark == ',' || style.mark == '.') = true := by
      rcases standard.mark with h | h <;> rw [h] <;> rfl
    have hsome : fraction.isEmpty = false := by
      rw [← Bool.not_eq_true, List.isEmpty_iff, ← List.length_eq_zero_iff, hfraction]
      exact standard.some.ne'
    rw [List.cons_append, List.cons_append, List.nil_append, Timestamp.takeSeconds?, htake, ha, hb,
      hmark, hsome, List.drop_left]
    rfl
  have hnotEmpty : hours.isEmpty = false := by
    rw [← Bool.not_eq_true, List.isEmpty_iff]
    exact hhours
  have htwo : Timestamp.isMinutes minutes = true := by
    rw [Timestamp.isMinutes, hminutes]
    rfl
  rw [Timestamp.take?]
  simp only [List.append_assoc, List.cons_append] at hspan hnext hseconds ⊢
  simp only [hspan, hnext, hnotEmpty, htwo]
  exact hseconds

end

/-! ## Reading a time -/

section

variable {style : TimeNotation} (standard : style.IsStandard) (n : Nat)

variable (style) in
theorem opensWithDigit : ∃ c rest, (style.textOfUnits n).toList = c :: rest ∧ c.isDigit = true := by
  obtain ⟨c, digits, hhours⟩ := List.exists_cons_of_ne_nil
    (padZeros_ne_nil style.hourWidth (Clock.ofUnits style.unitsPerSecond n).hours)
  have hc : c.isDigit = true := isDigit_of_mem_padZeros (hhours ▸ List.mem_cons_self)
  rw [toList_textOfUnits, stampOf, hhours]
  exact ⟨c, _, rfl, hc⟩

theorem endsSolid_textOfUnits : EndsSolid (style.textOfUnits n).toList := by
  have hfraction : EndsSolid (style.stampOf n).fraction :=
    endsSolid_numeral (padZeros_numeral _ (toDigits_numeral _)) (padZeros_ne_nil _ _)
  rw [toList_textOfUnits]
  exact (((hfraction.cons _).append _).cons _).append _ |>.cons _ |>.append _

/-- A written time consists of digits and marks. -/
theorem not_mem_textOfUnits {c : Char} (hdigit : c.isDigit = false)
    (hmark : c ≠ ':' ∧ c ≠ style.mark) : c ∉ (style.textOfUnits n).toList := by
  have hdigits : ∀ width m, c ∉ padZeros width (Nat.toDigits 10 m) := by
    intro width m hc
    rw [isDigit_of_mem_padZeros hc] at hdigit
    cases hdigit
  rw [toList_textOfUnits]
  simp only [List.mem_append, List.mem_cons, not_or]
  exact ⟨hdigits _ _, hmark.1, hdigits _ _, hmark.1, hdigits _ _, hmark.2, hdigits _ _⟩

include standard in
theorem read_textOfUnits [Rounding] : Timestamp.read (style.textOfUnits n).toList =
    (style.stampOf n).seconds?.map some := by
  have htrim : trim (style.textOfUnits n).toList = (style.textOfUnits n).toList := by
    obtain ⟨c, rest, htext, hc⟩ := opensWithDigit style n
    rw [trim, htext, trimFront_cons (isBlank_of_isDigit hc), ← htext]
    exact (endsSolid_textOfUnits n).trimBack_eq
  have htake := take_textOfUnits standard n [] (by simp)
  rw [List.append_nil] at htake
  rw [Timestamp.read, Timestamp.ofText?, htrim, htake]

include standard in
/-- **A written time counts the units that it was written for**, in milliseconds, if a whole number
may have as many digits. -/
theorem millis_stampOf (hwidth : style.hourWidth ≤ digitLimit) (few : n < 10 ^ digitLimit) :
    (style.stampOf n).millis = .ok (n * 10 ^ (3 - style.unitWidth)) := by
  have hhours : ¬ digitLimit < (style.stampOf n).hours.length := by
    have hdigits : (Nat.toDigits 10 (n / (3600 * style.unitsPerSecond))).length ≤ digitLimit := by
      rw [Nat.length_toDigits_le_iff (by decide) (by decide)]
      exact (Nat.div_le_self _ _).trans_lt few
    have hlength : (style.stampOf n).hours =
        padZeros style.hourWidth (Nat.toDigits 10 (n / (3600 * style.unitsPerSecond))) := rfl
    rw [hlength, padZeros, List.length_append, List.length_replicate]
    omega
  have hfraction : Timestamp.fractionMillis (style.stampOf n).fraction =
      n % style.unitsPerSecond * 10 ^ (3 - style.unitWidth) := by
    have hdigits : ∀ c ∈ (style.stampOf n).fraction ++ List.replicate (3 - style.unitWidth) '0',
        c.isDigit = true := by
      refine List.forall_mem_append.mpr ⟨fun _ hc ↦ isDigit_of_mem_padZeros hc, fun c hc ↦ ?_⟩
      rw [List.eq_of_mem_replicate hc]
      rfl
    rw [Timestamp.fractionMillis, length_fraction standard, natOfDigits_eq hdigits, List.map_append,
      List.map_replicate, show digitOf '0' = 0 by rfl, natOfValues_append_zeros]
    exact congrArg (· * 10 ^ (3 - style.unitWidth)) (natOfValues_padZeros _ _)
  have hthousand : style.unitsPerSecond * 10 ^ (3 - style.unitWidth) = 1000 := by
    rw [standard.units, ← pow_add, Nat.add_sub_cancel' standard.few]
    rfl
  have htotal := Clock.total_scaled style.unitsPerSecond (10 ^ (3 - style.unitWidth))
    (Clock.ofUnits style.unitsPerSecond n)
  rw [Clock.total_ofUnits, hthousand] at htotal
  rw [Timestamp.millis, if_neg hhours, hfraction, ← htotal]
  simp only [stampOf, natOfDigits_padZeros]
  rfl

end

/-! ## Times that survive -/

variable [rounding : Rounding]

/-- What is written for the time reads as an equal time. -/
def Survives (style : TimeNotation) (x : Quantity) : Prop :=
  ∃ text y, style.text (.real x) = .ok text ∧ Timestamp.read text.toList = .ok (some y)
    ∧ y.eq x = true

/-- Writes the time and compares it with what is read. -/
def survives? (style : TimeNotation) (x : Quantity) : Bool :=
  match style.text (.real x) with
  | .error _ => false
  | .ok text =>
    match Timestamp.read text.toList with
    | .ok (some y) => y.eq x
    | _ => false

theorem survives?_eq_true {style : TimeNotation} {x : Quantity} :
    style.survives? x = true ↔ style.Survives x := by
  rw [survives?, Survives]
  constructor
  · intro h
    split at h
    · cases h
    · rename_i text htext
      split at h
      · rename_i y hread
        exact ⟨text, y, htext, hread, h⟩
      · cases h
  · rintro ⟨text, y, htext, hread, heq⟩
    simp only [htext, hread, heq]

instance (style : TimeNotation) (x : Quantity) : Decidable (style.Survives x) :=
  decidable_of_iff _ survives?_eq_true

theorem Survives.ne_undefined {style : TimeNotation} {x : Quantity} (h : style.Survives x) :
    x ≠ .undefined := by
  rintro rfl
  obtain ⟨_, y, -, -, heq⟩ := h
  cases y <;> cases heq

/-- The seconds of a written time are no zero with a sign. -/
theorem seconds_ne_negativeZero (signs : rounding.KeepsSigns) {time : Timestamp} {y : Quantity}
    (h : time.seconds? = .ok y) : y ≠ .negativeZero := by
  rintro rfl
  obtain ⟨m, -, h⟩ := bind_eq_ok.mp h
  obtain ⟨q, hdiv, h⟩ := bind_eq_ok.mp h
  rw [show (1000 : Number) = .whole 1000 from rfl, Number.div, if_neg (by decide)] at hdiv
  split at hdiv
  · cases hdiv
    cases h
  · have hround := signs.nonnegative (mkRat m 1 / mkRat 1000 1)
      (div_nonneg (Rat.mkRat_nonneg (Int.natCast_nonneg m) 1) (by decide))
    split at hdiv
    · cases hdiv
    · cases hdiv
      obtain ⟨r, -, hr⟩ | hr := hround
      · rw [hr] at h
        cases h
      · rw [hr] at h
        cases h

/-- A time is written as a count of units, which is read as the time without its sign. -/
structure Counts (style : TimeNotation) (n : Nat) (x : Quantity) : Prop where
  written : style.text (.real x) = .ok (style.textOfUnits n)
  read : (style.stampOf n).seconds? = .ok x.unsigned

/-- **The seconds of a time that survives are said by what is written for it.** -/
theorem Survives.exists_counts (signs : rounding.KeepsSigns) {style : TimeNotation}
    (standard : style.IsStandard) {x : Quantity} (h : style.Survives x) : ∃ n, style.Counts n x := by
  obtain ⟨text, y, htext, hread, heq⟩ := h
  obtain ⟨n, hunits, hn⟩ := bind_eq_ok.mp htext
  cases pure_eq_ok.mp hn
  rw [read_textOfUnits standard] at hread
  obtain ⟨z, hseconds, hz⟩ := map_eq_ok.mp hread
  cases hz
  refine ⟨n, htext, ?_⟩
  rw [hseconds, Quantity.eq_unsigned heq (seconds_ne_negativeZero signs hseconds)]

/-- Two counts of units are the times of a subtitle. -/
structure AreTimes (style : TimeNotation) (m n : Nat) (subtitle : Subtitle) : Prop where
  start : style.Counts m subtitle.start
  stop : style.Counts n subtitle.stop

theorem exists_areTimes (signs : rounding.KeepsSigns) {style : TimeNotation}
    (standard : style.IsStandard) {subtitle : Subtitle} (hstart : style.Survives subtitle.start)
    (hstop : style.Survives subtitle.stop) : ∃ m n, style.AreTimes m n subtitle := by
  obtain ⟨m, hm⟩ := hstart.exists_counts signs standard
  obtain ⟨n, hn⟩ := hstop.exists_counts signs standard
  exact ⟨m, n, hm, hn⟩

theorem AreTimes.window_eq {style : TimeNotation} {m n : Nat} {subtitle : Subtitle}
    (times : style.AreTimes m n subtitle) : style.window subtitle.start subtitle.stop
      = .ok (style.textOfUnits m ++ " --> " ++ style.textOfUnits n) := by
  rw [window, times.start.written, times.stop.written]
  rfl

/-- A window that is written at all holds two written times. -/
theorem exists_of_window {style : TimeNotation} {start stop : Quantity} {text : String}
    (h : style.window start stop = .ok text) :
    ∃ m n, text = style.textOfUnits m ++ " --> " ++ style.textOfUnits n := by
  obtain ⟨first, hfirst, h⟩ := bind_eq_ok.mp h
  obtain ⟨second, hsecond, h⟩ := bind_eq_ok.mp h
  obtain ⟨m, -, hm⟩ := bind_eq_ok.mp hfirst
  obtain ⟨n, -, hn⟩ := bind_eq_ok.mp hsecond
  exact ⟨m, n, by rw [← pure_eq_ok.mp h, pure_eq_ok.mp hm, pure_eq_ok.mp hn]⟩

end TimeNotation

/-! ## Windows -/

/-- **A written window is read as its two times**, and what follows on the line as its settings,
unless a digit comes first. -/
theorem TimeRange.ofLine?_append {style : TimeNotation} (standard : style.IsStandard) (m n : Nat)
    (rest : List Char) (hrest : ∀ c ∈ rest.head?, isDecimal c = false) :
    TimeRange.ofLine? ((style.textOfUnits m ++ " --> " ++ style.textOfUnits n).toList ++ rest)
      = some ⟨style.stampOf m, style.stampOf n, rest⟩ := by
  have htrim : ∀ (k : Nat) (t : List Char),
      trimFront ((style.textOfUnits k).toList ++ t) = (style.textOfUnits k).toList ++ t := by
    intro k t
    obtain ⟨c, rest, htext, hc⟩ := TimeNotation.opensWithDigit style k
    rw [htext, List.cons_append, trimFront_cons (isBlank_of_isDigit hc)]
  have hbehind : ∀ t : List Char, ∀ c ∈ (" --> ".toList ++ t).head?, isDecimal c = false := by
    rintro t c ⟨⟩
    decide
  have hstart := TimeNotation.take_textOfUnits standard m _
    (hbehind ((style.textOfUnits n).toList ++ rest))
  have hstop := TimeNotation.take_textOfUnits standard n rest hrest
  have harrow : ∀ t, trimFront (" --> ".toList ++ t) = '-' :: '-' :: '>' :: ' ' :: t := fun _ ↦ rfl
  have hblank : trimFront (' ' :: ((style.textOfUnits n).toList ++ rest))
      = (style.textOfUnits n).toList ++ rest := by
    rw [trimFront, List.dropWhile_cons_of_pos (by decide), ← trimFront, htrim n rest]
  rw [String.toList_append, String.toList_append, List.append_assoc, List.append_assoc,
    TimeRange.ofLine?, htrim, hstart, Option.bind_eq_bind, Option.bind_some]
  simp only [harrow, hblank, hstop]
  rfl

theorem TimeRange.ofLine?_window {style : TimeNotation} (standard : style.IsStandard) (m n : Nat) :
    TimeRange.ofLine? (style.textOfUnits m ++ " --> " ++ style.textOfUnits n).toList
      = some ⟨style.stampOf m, style.stampOf n, []⟩ := by
  have := ofLine?_append standard m n [] (by simp)
  rwa [List.append_nil] at this

end Montage
