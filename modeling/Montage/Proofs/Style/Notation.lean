import Mathlib.Data.List.Basic
import Mathlib.Data.List.TakeWhile
import Montage.Proofs.Number.Row
import Montage.Proofs.Text.Lines
import Montage.Style.Color

/-!
# Notations of colors

A color is written with hexadecimal digits (`IsHex`) or as a call with channel numbers (`IsCall`),
and either may end in an alpha, a text of digits and points (`IsAlpha`).  These shapes say what the
readers look for: `ofHex?` and `ofChannels?` find a color just in a text of their own shape
(`Color.ofHex?_eq_some`, `Color.ofChannels?_eq_some`).  Whether its numbers can be read is another
matter; what is found may still be a failure.
-/

set_option autoImplicit false

namespace Montage
namespace Color

/-! ## Shapes of colors -/

/-- What stands in front of hexadecimal digits. -/
def hexMarks : List (List Char) := [['#'], ['0', 'x'], ['0', 'X']]

/-- What stands behind hexadecimal digits: an alpha, or nothing. -/
def alphaPart : Option (List Char) → List Char
  | none => []
  | some alpha => '@' :: alpha

/-- Digits and points, in any order. -/
structure IsAlpha (alpha : List Char) : Prop where
  some : alpha ≠ []
  chars : ∀ c ∈ alpha, IsRowChar c

/-- A text of three, six or eight hexadecimal digits, possibly with an alpha. -/
structure IsHex (s digits : List Char) (alpha : Option (List Char)) : Prop where
  text : ∃ mark ∈ hexMarks, s = mark ++ (digits ++ alphaPart alpha)
  length : digits.length ∈ [3, 6, 8]
  digits : ∀ c ∈ digits, (hexValue? c).isSome = true
  alpha : ∀ a ∈ alpha, IsAlpha a

/-- A channel number: digits of any script. -/
structure IsChannel (part : List Char) : Prop where
  some : part ≠ []
  digits : ∀ c ∈ part, isDecimal c = true

/-- A call with three channel numbers, possibly with an alpha. -/
structure IsCall (s red green blue : List Char) (alpha : Option (List Char)) : Prop where
  text : callParts? s = some (red :: green :: blue :: alpha.toList)
  red : IsChannel red
  green : IsChannel green
  blue : IsChannel blue
  alpha : ∀ a ∈ alpha, IsAlpha a

theorem isAlpha_iff {s : List Char} : IsAlpha s ↔ (!s.isEmpty && s.all isAlphaChar) = true := by
  rw [Bool.and_eq_true, Bool.not_eq_true', List.isEmpty_eq_false_iff, List.all_eq_true]
  simp only [isAlphaChar, Bool.or_eq_true, beq_iff_eq]
  exact ⟨fun h ↦ ⟨h.some, h.chars⟩, fun h ↦ ⟨h.1, h.2⟩⟩

theorem isChannel_iff {s : List Char} : IsChannel s ↔ (!s.isEmpty && s.all isDecimal) = true := by
  rw [Bool.and_eq_true, Bool.not_eq_true', List.isEmpty_eq_false_iff, List.all_eq_true]
  exact ⟨fun h ↦ ⟨h.some, h.digits⟩, fun h ↦ ⟨h.1, h.2⟩⟩

section

attribute [local instance] Rounding.binary64

/-! ## Hexadecimal digits -/

/-- The color of the values of hexadecimal digits. -/
def ofValues? : List Nat → Option Color
  | [r, g, b] => some ⟨hexPair r r, hexPair g g, hexPair b b, .finite 1⟩
  | [r, r', g, g', b, b'] => some ⟨hexPair r r', hexPair g g', hexPair b b', .finite 1⟩
  | [r, r', g, g', b, b', a, a'] =>
    some ⟨hexPair r r', hexPair g g', hexPair b b',
      Quantity.div (.finite (hexPair a a' : Nat)) (.finite 255)⟩
  | _ => none

/-- A color with the alpha that is written behind its digits, if one is. -/
def withAlpha (color : Color) : Option (List Char) → Except Error Color
  | none => .ok color
  | some alpha => (readQuantity alpha).map fun x ↦ { color with alpha := x }

theorem isSome_ofValues? {values : List Nat} :
    (ofValues? values).isSome = true ↔ values.length ∈ [3, 6, 8] := by
  constructor
  · intro h
    rw [ofValues?.eq_def] at h
    split at h <;> simp_all
  · intro h
    match values, h with
    | [_, _, _], _ => rfl
    | [_, _, _, _, _, _], _ => rfl
    | [_, _, _, _, _, _, _, _], _ => rfl

/-- What stands behind the mark of hexadecimal digits. -/
def behindMark? : List Char → Option (List Char)
  | '#' :: rest => some rest
  | '0' :: x :: rest => if x = 'x' ∨ x = 'X' then some rest else none
  | _ => none

/-- The alpha behind hexadecimal digits, if anything stands there. -/
def alphaBehind? : List Char → Option (Option (List Char))
  | [] => some none
  | '@' :: alpha => if !alpha.isEmpty && alpha.all isAlphaChar then some (some alpha) else none
  | _ => none

theorem behindMark?_eq_some {s body : List Char} :
    behindMark? s = some body ↔ ∃ mark ∈ hexMarks, s = mark ++ body := by
  constructor
  · intro h
    rw [behindMark?.eq_def] at h
    split at h
    · cases h
      exact ⟨['#'], by decide, rfl⟩
    · split at h
      · rename_i hx
        cases h
        obtain rfl | rfl := hx
        · exact ⟨['0', 'x'], by decide, rfl⟩
        · exact ⟨['0', 'X'], by decide, rfl⟩
      · cases h
    · cases h
  · rintro ⟨mark, hmark, rfl⟩
    simp only [hexMarks, List.mem_cons, List.not_mem_nil, or_false] at hmark
    obtain rfl | rfl | rfl := hmark <;> rfl

theorem alphaBehind?_eq_some {rest : List Char} {alpha : Option (List Char)} :
    alphaBehind? rest = some alpha ↔ rest = alphaPart alpha ∧ ∀ a ∈ alpha, IsAlpha a := by
  constructor
  · intro h
    rw [alphaBehind?.eq_def] at h
    split at h
    · cases h
      exact ⟨rfl, by rintro a ⟨⟩⟩
    · split at h
      · rename_i hall
        cases h
        refine ⟨rfl, ?_⟩
        rintro a ⟨⟩
        exact isAlpha_iff.mpr hall
      · cases h
    · cases h
  · rintro ⟨rfl, halpha⟩
    cases alpha with
    | none => rfl
    | some alpha => exact if_pos (isAlpha_iff.mp (halpha alpha rfl))

/-- The digits of a text are read in three steps: what is behind the mark, what is behind the
digits, and the digits themselves. -/
theorem ofHex?_eq_bind (s : List Char) : ofHex? s = (behindMark? s).bind fun body ↦
    (alphaBehind? (body.dropWhile fun c ↦ (hexValue? c).isSome)).bind fun alpha ↦
      (ofValues? ((body.takeWhile fun c ↦ (hexValue? c).isSome).filterMap hexValue?)).map
        fun color ↦ color.withAlpha alpha := by
  rw [ofHex?.eq_def]
  refine congrArg (Option.bind (behindMark? s)) (funext fun body ↦ ?_)
  rw [List.span_eq_takeWhile_dropWhile]
  refine congrArg (Option.bind (alphaBehind? _)) (funext fun alpha ↦ ?_)
  dsimp only
  generalize (body.takeWhile fun c ↦ (hexValue? c).isSome).filterMap hexValue? = values
  cases alpha <;> dsimp only <;> split
  all_goals simp only [ofValues?, Option.map_some, Option.map_none, *]
  all_goals rfl

theorem alphaPart_head (alpha : Option (List Char)) :
    ∀ c ∈ (alphaPart alpha).head?, (hexValue? c).isSome = false := by
  cases alpha with
  | none => rintro c ⟨⟩
  | some alpha =>
    rintro c ⟨⟩
    decide

/-- **What is read as hexadecimal digits**: a mark, the digits of a color, and possibly an alpha. -/
theorem ofHex?_eq_some {s : List Char} {found : Except Error Color} : ofHex? s = some found ↔
    ∃ digits alpha color, IsHex s digits alpha ∧ ofValues? (digits.filterMap hexValue?) = some color
      ∧ found = color.withAlpha alpha := by
  have hlength {digits : List Char} (h : ∀ c ∈ digits, (hexValue? c).isSome = true) :
      (digits.filterMap hexValue?).length = digits.length :=
    List.filterMap_length_eq_length.mpr h
  simp only [ofHex?_eq_bind, Option.bind_eq_some_iff, Option.map_eq_some_iff, behindMark?_eq_some,
    alphaBehind?_eq_some]
  constructor
  · rintro ⟨body, ⟨mark, hmark, rfl⟩, alpha, ⟨hrest, halpha⟩, color, hcolor, rfl⟩
    have hdigits : ∀ c ∈ body.takeWhile (fun c ↦ (hexValue? c).isSome), (hexValue? c).isSome = true :=
      fun _ hc ↦ List.mem_takeWhile_imp (p := fun c ↦ (hexValue? c).isSome) hc
    refine ⟨_, alpha, color, ⟨⟨mark, hmark, ?_⟩, ?_, hdigits, halpha⟩, hcolor, rfl⟩
    · rw [← hrest, List.takeWhile_append_dropWhile]
    · rw [← hlength hdigits, ← isSome_ofValues?, hcolor, Option.isSome_some]
  · rintro ⟨digits, alpha, color, hex, hcolor, rfl⟩
    obtain ⟨mark, hmark, rfl⟩ := hex.text
    have hspan := span_append hex.digits (alphaPart_head alpha)
    rw [List.span_eq_takeWhile_dropWhile, Prod.mk.injEq] at hspan
    refine ⟨_, ⟨mark, hmark, rfl⟩, alpha, ⟨hspan.2, hex.alpha⟩, color, ?_, rfl⟩
    rw [hspan.1, hcolor]

/-! ## Calls -/

/-- The color of the parts of a call. -/
def ofParts (red green blue : List Char) (alpha : Option (List Char)) : Except Error Color := do
  let red ← channel red
  let green ← channel green
  let blue ← channel blue
  let alpha ← alpha.elim (.ok (.finite 1)) readQuantity
  return ⟨red, green, blue, Quantity.min (.finite 1) alpha⟩

/-- **What is read as a call**: three channel numbers, and possibly an alpha. -/
theorem ofChannels?_eq_some {s : List Char} {found : Except Error Color} :
    ofChannels? s = some found ↔
      ∃ red green blue alpha, IsCall s red green blue alpha
        ∧ found = ofParts red green blue alpha := by
  have hnumbers (r g b : List Char) : ((!r.isEmpty && r.all isDecimal)
      && (!g.isEmpty && g.all isDecimal) && (!b.isEmpty && b.all isDecimal)) = true ↔
        IsChannel r ∧ IsChannel g ∧ IsChannel b := by
    rw [Bool.and_eq_true, Bool.and_eq_true, isChannel_iff, isChannel_iff, isChannel_iff, and_assoc]
  rw [ofChannels?.eq_def]
  dsimp only
  constructor
  · intro h
    split at h
    · rename_i r g b htext
      split at h
      · rename_i hall
        obtain ⟨hr, hg, hb⟩ := (hnumbers r g b).mp hall
        cases h
        exact ⟨r, g, b, none, ⟨htext, hr, hg, hb, by rintro a ⟨⟩⟩, rfl⟩
      · cases h
    · rename_i r g b a htext
      split at h
      · rename_i halpha
        split at h
        · rename_i hall
          obtain ⟨hr, hg, hb⟩ := (hnumbers r g b).mp hall
          cases h
          refine ⟨r, g, b, some a, ⟨htext, hr, hg, hb, ?_⟩, rfl⟩
          rintro a ⟨⟩
          exact isAlpha_iff.mpr halpha
        · cases h
      · cases h
    · cases h
  · rintro ⟨red, green, blue, alpha, call, rfl⟩
    have hall := (hnumbers red green blue).mpr ⟨call.red, call.green, call.blue⟩
    rw [call.text]
    cases alpha with
    | none => exact if_pos hall
    | some alpha => exact (if_pos (isAlpha_iff.mp (call.alpha alpha rfl))).trans (if_pos hall)

/-- A call does not begin like hexadecimal digits. -/
theorem callParts?_of_mark {mark : List Char} (hmark : mark ∈ hexMarks) (rest : List Char) :
    callParts? (mark ++ rest) = none := by
  simp only [hexMarks, List.mem_cons, List.not_mem_nil, or_false] at hmark
  obtain rfl | rfl | rfl := hmark <;> rfl

theorem IsCall.ofHex?_eq {s red green blue : List Char} {alpha : Option (List Char)}
    (h : IsCall s red green blue alpha) : ofHex? s = none := by
  refine Option.eq_none_iff_forall_ne_some.mpr fun found hfound ↦ ?_
  obtain ⟨digits, alpha, color, hex, -⟩ := ofHex?_eq_some.mp hfound
  obtain ⟨mark, hmark, rfl⟩ := hex.text
  have htext := h.text
  rw [callParts?_of_mark hmark] at htext
  cases htext

/-! ## Texts -/

theorem parse_of_call {text : String} {red green blue : List Char} {alpha : Option (List Char)}
    (h : IsCall (trim text.toList) red green blue alpha) :
    parse text = (ofParts red green blue alpha).map some := by
  rw [parse]
  rw [h.ofHex?_eq, ofChannels?_eq_some.mpr ⟨_, _, _, _, h, rfl⟩]
  rfl

/-- A text has the shape of hexadecimal digits or of a call, or it is looked up as a name. -/
theorem shape_cases (text : String) :
    (∃ digits alpha, IsHex (trim text.toList) digits alpha)
      ∨ (∃ red green blue alpha, IsCall (trim text.toList) red green blue alpha)
      ∨ parse text = .ok (ofName? (trim text.toList)) := by
  cases hhex : ofHex? (trim text.toList) with
  | some found =>
    obtain ⟨digits, alpha, -, hex, -⟩ := ofHex?_eq_some.mp hhex
    exact .inl ⟨digits, alpha, hex⟩
  | none =>
    cases hcall : ofChannels? (trim text.toList) with
    | some found =>
      obtain ⟨red, green, blue, alpha, call, -⟩ := ofChannels?_eq_some.mp hcall
      exact .inr (.inl ⟨red, green, blue, alpha, call⟩)
    | none =>
      refine .inr (.inr ?_)
      rw [parse]
      rw [hhex, hcall]
      rfl

end

end Color
end Montage
