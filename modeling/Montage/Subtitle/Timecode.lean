import Montage.Number.Decimal
import Montage.Number.Reader

/-!
# Timecodes

Times in subtitle documents are written as hours, minutes, seconds and a decimal fraction.  They
are rounded to whole milliseconds, or hundredths in scripts, and then written by division of whole
numbers, so that what is read from a written time is the same whole number.

The fraction of a written time is a decimal fraction: `.5`, `.50` and `.500` are all half a second.
-/

set_option autoImplicit false

namespace Montage

/-! ## Times by the clock -/

/-- A span of time by the clock; how many units make a second is up to the notation. -/
structure Clock where
  hours : Nat
  minutes : Nat
  seconds : Nat
  units : Nat
  deriving DecidableEq, Repr

namespace Clock

/-- The clock after a number of units. -/
def ofUnits (perSecond total : Nat) : Clock where
  hours := total / (3600 * perSecond)
  minutes := total % (3600 * perSecond) / (60 * perSecond)
  seconds := total % (60 * perSecond) / perSecond
  units := total % perSecond

/-- The number of units until the clock stands as it does. -/
def total (perSecond : Nat) (clock : Clock) : Nat :=
  ((clock.hours * 60 + clock.minutes) * 60 + clock.seconds) * perSecond + clock.units

/-- A clock that ran for a number of units says that number. -/
theorem total_ofUnits (perSecond n : Nat) : (ofUnits perSecond n).total perSecond = n := by
  have hour : 3600 * perSecond = 60 * perSecond * 60 := by omega
  have sixty : 60 * perSecond = perSecond * 60 := Nat.mul_comm _ _
  have a := Nat.div_add_mod n (60 * perSecond * 60)
  have b : n % (60 * perSecond * 60) / (60 * perSecond) = n / (60 * perSecond) % 60 :=
    Nat.mod_mul_right_div_self n (60 * perSecond) 60
  have c : n % (perSecond * 60) / perSecond = n / perSecond % 60 :=
    Nat.mod_mul_right_div_self n perSecond 60
  have d : n / (60 * perSecond * 60) = n / (60 * perSecond) / 60 := (Nat.div_div_eq_div_mul ..).symm
  have e : n / (60 * perSecond) = n / perSecond / 60 := by
    rw [sixty, Nat.div_div_eq_div_mul]
  simp only [total, ofUnits, hour, b, d]
  rw [Nat.div_add_mod' (n / (60 * perSecond)) 60, sixty, c, ← sixty, e,
    Nat.div_add_mod' (n / perSecond) 60, Nat.div_add_mod' n perSecond]

/-- The text of a clock with a mark before the units, each part padded to a width. -/
def text (hourWidth unitWidth : Nat) (mark : Char) (clock : Clock) : String :=
  paddedNat hourWidth clock.hours ++ ":" ++ paddedNat 2 clock.minutes ++ ":"
    ++ paddedNat 2 clock.seconds ++ String.singleton mark ++ paddedNat unitWidth clock.units

end Clock

/-! ## Writing -/

/-- How a notation writes times. -/
structure TimeNotation where
  unitsPerSecond : Nat
  hourWidth : Nat
  unitWidth : Nat
  mark : Char

namespace TimeNotation

/-- Milliseconds behind a comma. -/
def srt : TimeNotation := ⟨1000, 2, 3, ','⟩

/-- Milliseconds behind a point. -/
def vtt : TimeNotation := ⟨1000, 2, 3, '.'⟩

/-- Hundredths behind a point, and hours without padding. -/
def ass : TimeNotation := ⟨100, 1, 2, '.'⟩

/-- A number of units in the notation. -/
def textOfUnits (style : TimeNotation) (n : Nat) : String :=
  (Clock.ofUnits style.unitsPerSecond n).text style.hourWidth style.unitWidth style.mark

variable [Rounding]

/-- The units that a time is rounded to; a time before zero counts as zero. -/
def units (style : TimeNotation) (seconds : Number) : Except Error Nat := do
  let scaled ← seconds.mul (.whole style.unitsPerSecond)
  return (← scaled.roundWhole).toNat

/-- A time in the notation. -/
def text (style : TimeNotation) (seconds : Number) : Except Error String := do
  return style.textOfUnits (← style.units seconds)

/-- The two times of a window with an arrow between them. -/
def window (style : TimeNotation) (start stop : Quantity) : Except Error String := do
  return (← style.text (.real start)) ++ " --> " ++ (← style.text (.real stop))

end TimeNotation

/-! ## Reading -/

/-- A written time, part by part: hours if there are any, two digits at most for the minutes, two
for the seconds and one to three for the fraction. -/
structure Timestamp where
  hours : List Char
  minutes : List Char
  seconds : List Char
  fraction : List Char
  deriving DecidableEq, Repr

namespace Timestamp

/-- The digits in front of a text, and the rest. -/
def spanDigits (s : List Char) : List Char × List Char := s.span isDecimal

/-- The seconds and the fraction in front of a text. -/
def takeSeconds? (hours minutes : List Char) : List Char → Option (Timestamp × List Char)
  | a :: b :: mark :: rest =>
    let fraction := (rest.take 3).takeWhile isDecimal
    if isDecimal a && isDecimal b && (mark == ',' || mark == '.') && !fraction.isEmpty then
      some (⟨hours, minutes, [a, b], fraction⟩, rest.drop fraction.length)
    else none
  | _ => none

/-- Whether digits can be minutes. -/
def isMinutes (digits : List Char) : Bool := digits.length == 1 || digits.length == 2

/-- A written time in front of a text. -/
def take? (s : List Char) : Option (Timestamp × List Char) :=
  match spanDigits s with
  | (first, ':' :: rest) =>
    match spanDigits rest with
    | (second, ':' :: more) =>
      if !first.isEmpty && isMinutes second then takeSeconds? first second more else none
    | _ => if isMinutes first then takeSeconds? [] first rest else none
  | _ => none

/-- The time that a text is, white space around it dropped. -/
def ofText? (s : List Char) : Option Timestamp :=
  match take? (trim s) with
  | some (time, []) => some time
  | _ => none

/-- The milliseconds of a fraction. -/
def fractionMillis (fraction : List Char) : Nat :=
  natOfDigits (fraction ++ List.replicate (3 - fraction.length) '0')

/-- The milliseconds of a written time.  Hours may have as many digits as a whole number may. -/
def millis (time : Timestamp) : Except Error Nat :=
  if digitLimit < time.hours.length then .error .badValue
  else .ok <| Clock.total 1000 {
    hours := natOfDigits time.hours, minutes := natOfDigits time.minutes
    seconds := natOfDigits time.seconds, units := fractionMillis time.fraction }

/-- The seconds of a written time. -/
def seconds? [Rounding] (time : Timestamp) : Except Error Quantity := do
  (← (Number.whole (← time.millis)).div 1000).toQuantity

/-- The seconds that a text says, if it is a time. -/
def read [Rounding] (s : List Char) : Except Error (Option Quantity) :=
  match ofText? s with
  | none => .ok none
  | some time => (time.seconds?).map some

end Timestamp

/-- Two written times with an arrow between them, and what follows on the line. -/
structure TimeRange where
  start : Timestamp
  stop : Timestamp
  settings : List Char
  deriving DecidableEq, Repr

/-- The window that a line opens with. -/
def TimeRange.ofLine? (line : List Char) : Option TimeRange := do
  let (start, rest) ← Timestamp.take? (trimFront line)
  match trimFront rest with
  | '-' :: '-' :: '>' :: more =>
    let (stop, settings) ← Timestamp.take? (trimFront more)
    return ⟨start, stop, settings⟩
  | _ => none

end Montage
