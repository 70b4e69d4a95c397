import Montage.Proofs.Subtitle.Millisecond
import Montage.Proofs.Subtitle.Script.Override

/-!
# Places and fades in scripts

A place is written as a key of a number pad and a pair of numbers of pixels, a fade as a pair of
numbers of milliseconds.  Both are read back: numbers that two decimal places hold come back but for
the sign of a zero (`Script.exists_placeTags`), and a fade that lasts a whole number of milliseconds
lasts as long as before (`Script.animationOf_fades`).
-/

set_option autoImplicit false

namespace Montage

/-! ## Numbers of pixels -/

/-- A number of a position that two decimal places hold. -/
structure Number.IsPlaced [Rounding] (n : Number) : Prop where
  offset : n.IsOffset
  rounded : (n.roundPlaces 2).eq n = true

attribute [local instance] Rounding.binary64

namespace Quantity

theorem nearestPlace_zero : nearestPlace 0 2 = 0 := by decide +kernel

theorem roundPlaces_zero : (Quantity.finite 0).roundPlaces 2 = .finite 0 := if_pos nearestPlace_zero

/-- What rounding to places leaves as it is stands on the grid, and is rounded to itself. -/
theorem roundPlaces_of_eq {x : Quantity} (h : (x.roundPlaces 2).eq x = true) :
    x.unsigned.roundPlaces 2 = x.unsigned ∧ (∀ q, x = .finite q → Montage.IsOnGrid q)
      ∧ x ≠ .undefined := by
  cases x with
  | finite q =>
    have hround : (Quantity.finite q).roundPlaces 2 = .finite q ∧ Montage.IsOnGrid q := by
      rw [roundPlaces, value?] at h ⊢
      dsimp only at h ⊢
      split at h
      · rename_i hnone
        have hq : q = 0 := by
          unfold zero at h
          split at h
          · exact (eq_of_beq h).symm
          · exact (eq_of_beq h).symm
        rw [if_pos hnone, hq]
        exact ⟨rfl, isOnGrid_zero⟩
      · rename_i hsome
        rw [if_neg hsome]
        cases hvalue : Rounding.round (nearestPlace q (2 : Nat)) with
        | finite v =>
          rw [hvalue] at h
          obtain rfl : v = q := eq_of_beq h
          exact ⟨rfl, isOnGrid_of_binary64 hvalue⟩
        | negativeZero =>
          rw [hvalue] at h
          obtain rfl : 0 = q := eq_of_beq h
          exact absurd nearestPlace_zero hsome
        | infinite | undefined =>
          rw [hvalue] at h
          cases h
    refine ⟨hround.1, ?_, by rintro ⟨⟩⟩
    rintro _ ⟨⟩
    exact hround.2
  | negativeZero => exact ⟨roundPlaces_zero, by rintro _ ⟨⟩, by rintro ⟨⟩⟩
  | infinite negative => exact ⟨rfl, by rintro _ ⟨⟩, by rintro ⟨⟩⟩
  | undefined => cases h

/-- Adding a zero of either sign changes at most the sign of a zero. -/
theorem unsigned_add_zero {x d : Quantity} (hd : d.eq (.finite 0) = true)
    (hx : ∀ q, x = .finite q → Montage.IsOnGrid q) : (x.add d).unsigned = x.unsigned := by
  have hzero : d = .finite 0 ∨ d = .negativeZero := by
    cases d with
    | finite q => exact .inl (congrArg Quantity.finite (eq_of_beq hd))
    | negativeZero => exact .inr rfl
    | infinite | undefined => cases hd
  rcases hzero with rfl | rfl
  · cases x with
    | finite q =>
      have hround : binary64 (q + 0) = .finite q := by
        rw [add_zero]
        exact hx q rfl
      exact congrArg unsigned hround
    | negativeZero | infinite | undefined => rfl
  · cases x <;> rfl

end Quantity

theorem Number.IsPlaced.rounded_exactly {n : Number} (hn : n.IsPlaced) :
    (n.exactly.roundPlaces 2).eq n.exactly = true := by
  obtain rfl | ⟨x, rfl⟩ := hn.offset
  · exact congrArg (·.eq (Quantity.finite 0)) Quantity.roundPlaces_zero
  · exact hn.rounded

/-- A zero offset leaves a number of a position as it is, but for the sign of a zero. -/
theorem Number.exists_add {n d : Number} (hn : n.IsPlaced) (hd : d.IsOffset)
    (hzero : d.isZero = true) :
    ∃ m, n.add d = .ok m ∧ m.IsOffset ∧ m.exactly.unsigned = n.exactly.unsigned := by
  obtain ⟨-, hgrid, -⟩ := Quantity.roundPlaces_of_eq hn.rounded_exactly
  have hround : Rounding.round 0 = .finite 0 := by decide
  obtain rfl | ⟨x, rfl⟩ := hn.offset <;> obtain rfl | ⟨y, rfl⟩ := hd
  · exact ⟨0, rfl, .inl rfl, rfl⟩
  · exact ⟨_, combine_zero_real hround _ _ y, .inr ⟨_, rfl⟩, Quantity.unsigned_add_zero hzero hgrid⟩
  · exact ⟨_, combine_real_zero hround _ _ x, .inr ⟨_, rfl⟩, Quantity.unsigned_add_zero hzero hgrid⟩
  · exact ⟨_, rfl, .inr ⟨_, rfl⟩, Quantity.unsigned_add_zero hzero hgrid⟩

/-- **A number of pixels is read back from its two places**, but for the sign of a zero. -/
theorem Number.IsPlaced.exists_text {n d : Number} (hn : n.IsPlaced) (hd : d.IsOffset)
    (hzero : d.isZero = true) :
    ∃ m, n.add d = .ok m
      ∧ readQuantity (m.roundPlaces 2).text.toList = .ok n.exactly.unsigned := by
  obtain ⟨hround, hgrid, hdefined⟩ := Quantity.roundPlaces_of_eq hn.rounded_exactly
  obtain ⟨m, hm, hoffset, hsame⟩ := exists_add hn hd hzero
  have htext : (m.roundPlaces 2).text = (Number.real n.exactly.unsigned).text := by
    obtain rfl | ⟨y, rfl⟩ := hoffset
    · rw [← hsame]
      rfl
    · cases y with
      | negativeZero =>
        rw [← hsame]
        decide +kernel
      | finite | infinite | undefined =>
        rw [← hsame] at hround ⊢
        exact congrArg (fun x ↦ (Number.real x).text) hround
  refine ⟨m, hm, ?_⟩
  rw [htext]
  cases hx : n.exactly with
  | finite q => exact (hgrid q hx).readQuantity_text
  | negativeZero => exact isOnGrid_zero.readQuantity_text
  | infinite negative => exact readQuantity_infinite negative
  | undefined => exact absurd hx hdefined

namespace Script

/-! ## Pairs -/

/-- A pair as the value of a tag. -/
def pairText (x y : List Char) : List Char := '(' :: ((x ++ ',' :: y) ++ [')'])

section

variable {x y : List Char} (hx : ∀ c ∈ x, isNumeralChar c = true)
  (hy : ∀ c ∈ y, isNumeralChar c = true)
include hx hy

/-- Nothing but the characters of numerals and a comma stands in a pair. -/
theorem not_mem_pair {c : Char} (hc : isNumeralChar c = false) (hcomma : c ≠ ',') :
    c ∉ x ++ ',' :: y := by
  rw [List.mem_append, List.mem_cons]
  rintro (hmem | rfl | hmem)
  · rw [hx c hmem] at hc
    cases hc
  · exact hcomma rfl
  · rw [hy c hmem] at hc
    cases hc

theorem isTagValue_pairText : IsTagValue (pairText x y) := by
  have hends : ∀ c ∈ ends, isNumeralChar c = false ∧ c ≠ ',' := by decide
  exact isTagValue_brackets (not_mem_pair hx hy (by decide) (by decide))
    fun c hc ↦ not_mem_pair hx hy (hends c hc).1 (hends c hc).2

theorem pairOf_pairText : pairOf (pairText x y) = (x, y) := by
  have hcomma : ',' ∉ x := fun hmem ↦ absurd (hx _ hmem) (by decide)
  have hbrackets : ∀ c ∈ x ++ ',' :: y, (c == '(' || c == ')') = false := by
    intro c hc
    rw [← Bool.not_eq_true, Bool.or_eq_true, beq_iff_eq, beq_iff_eq]
    rintro (rfl | rfl) <;> exact not_mem_pair hx hy (by decide) (by decide) hc
  rw [pairOf, pairText, stripBy_within rfl rfl (by simp) hbrackets, cutAt_part hcomma]

end

/-! ## Places -/

end Script

/-- A position that override tags can say: two numbers of pixels that two places hold, an anchor and
no offsets. -/
structure Position.IsScript (position : Position) : Prop where
  x : ∃ n : Number, position.x = .num n ∧ n.IsPlaced
  y : ∃ n : Number, position.y = .num n ∧ n.IsPlaced
  anchor : position.anchor.isSome = true
  dx : position.dx.IsOffset ∧ position.dx.isZero = true
  dy : position.dy.IsOffset ∧ position.dy.isZero = true

/-- The coordinate as a quantity, with a zero that has no sign. -/
def Coordinate.unsigned : Coordinate → Coordinate
  | .num n => .num (.real n.exactly.unsigned)
  | .text s => .text s

/-- The position with quantities for its coordinates, and with zeros that have no sign. -/
def Position.unsigned (position : Position) : Position :=
  { x := position.x.unsigned, y := position.y.unsigned, anchor := position.anchor }

namespace Script

attribute [local instance] Rounding.binary64

theorem padAnchor?_padKey (anchor : Anchor) : padAnchor? (padKey anchor) = some anchor := by
  cases anchor <;> rfl

section

variable (all : Overrides)

theorem add_align (anchor : Anchor) : all.add .align (Nat.toDigits 10 (padKey anchor))
    = .ok { all with anchor := some anchor } := by
  have hfew : padKey anchor < 10 ^ digitLimit := by
    have hten : padKey anchor < 10 ^ 1 := by cases anchor <;> decide
    exact hten.trans_le (Nat.pow_le_pow_right (by decide) (by decide))
  have hdigits : (Nat.toDigits 10 (padKey anchor)).all isDecimal = true :=
    List.all_eq_true.mpr fun c hc ↦ isDecimal_of_isDigit (isDigit_of_mem_toDigits hc)
  rw [Overrides.add, List.isEmpty_eq_false_iff.mpr Nat.toDigits_ne_nil, hdigits,
    readWhole_toDigits hfew, ← padAnchor?_padKey]
  rfl

theorem add_place {m n : Number} {x y : Quantity} (hx : readQuantity m.text.toList = .ok x)
    (hy : readQuantity n.text.toList = .ok y) :
    all.add .place (pairText m.text.toList n.text.toList)
      = .ok { all with place := some (x, y) } := by
  rw [Overrides.add, pairOf_pairText (text_numeral m) (text_numeral n)]
  dsimp only
  rw [hx, hy]
  rfl

/-- **The tags of a place tell the place.** -/
theorem exists_placeTags (heading : Heading) {position : Position} (h : position.IsScript) :
    ∃ texts after, placeTags heading position = .ok texts ∧ Tells texts all after
      ∧ after.positionOf = some position.unsigned ∧ after.style = all.style
      ∧ after.fades = all.fades := by
  obtain ⟨x, hx, hxPlaced⟩ := h.x
  obtain ⟨y, hy, hyPlaced⟩ := h.y
  obtain ⟨m, hm, hmRead⟩ := hxPlaced.exists_text h.dx.1 h.dx.2
  obtain ⟨n, hn, hnRead⟩ := hyPlaced.exists_text h.dy.1 h.dy.2
  obtain ⟨anchor, hanchor⟩ := Option.isSome_iff_exists.mp h.anchor
  have hpoint : position.point heading.width heading.height = .ok (some (m, n)) := by
    rw [Position.point, hx, hy]
    exact bind_eq_ok.mpr ⟨some m, bind_eq_ok.mpr ⟨m, hm, rfl⟩,
      bind_eq_ok.mpr ⟨some n, bind_eq_ok.mpr ⟨n, hn, rfl⟩, rfl⟩⟩
  have hkey : IsWritten (.align, Nat.toDigits 10 (padKey anchor)) :=
    ⟨isTagValue_plain fun c hc ↦ .inl (isDigit_of_mem_toDigits hc), by rintro ⟨⟩⟩
  have hpair : IsWritten (.place,
      pairText (m.roundPlaces 2).text.toList (n.roundPlaces 2).text.toList) :=
    ⟨isTagValue_pairText (text_numeral _) (text_numeral _), by rintro ⟨⟩⟩
  refine ⟨["\\an" ++ toString (padKey anchor) ++ "\\pos(" ++ (m.roundPlaces 2).text ++ ","
      ++ (n.roundPlaces 2).text ++ ")"],
    { all with place := some (x.exactly.unsigned, y.exactly.unsigned), anchor := some anchor },
    ?_, .text [(.align, Nat.toDigits 10 (padKey anchor)), (.place,
      pairText (m.roundPlaces 2).text.toList (n.roundPlaces 2).text.toList)]
      (List.cons_ne_nil _ _) ?_ ?_ ?_, ?_, rfl, rfl⟩
  · rw [placeTags, hpoint, hanchor]
    rfl
  · simp [written, Tag.word, pairText]
  · rw [List.forall_mem_cons, List.forall_mem_singleton]
    exact ⟨hkey, hpair⟩
  · exact bind_eq_ok.mpr ⟨_, add_align all anchor, bind_eq_ok.mpr ⟨_, add_place _ hmRead hnRead, rfl⟩⟩
  · rw [Position.unsigned, hx, hy, hanchor]
    rfl

end

/-! ## Fades -/

end Script

/-- An animation that override tags can say: a fade that lasts a whole number of milliseconds, which
its length rounds to and which brings its length back. -/
structure Animation.IsScript (animation : Animation) : Prop where
  motion : animation.motion ∈ [.fade, .fadeIn, .fadeOut]
  only : animation = { motion := animation.motion, duration := animation.duration }
  positive : Quantity.lt (.finite 0) animation.duration = true
  millis : ∃ n : Nat, 0 < n
    ∧ ((Number.real animation.duration).mul 1000 >>= Number.roundWhole) = .ok (n : Int)
    ∧ ∃ duration, (Number.whole n).div 1000 = .ok (.real duration)
      ∧ duration.eq animation.duration = true

namespace Script

attribute [local instance] Rounding.binary64

/-- The milliseconds at the beginning and at the end of a fade of some length. -/
def fadesOf (motion : Motion) (n : Nat) : Nat × Nat :=
  match motion with
  | .fade => (n, n)
  | .fadeIn => (n, 0)
  | _ => (0, n)

/-- A number of milliseconds whose quotient is finite is short enough for a reader. -/
theorem lt_of_div_eq {n : Nat} {x : Quantity}
    (h : (Number.whole n).div 1000 = .ok (.real x)) (hx : Quantity.lt (.finite 0) x = true) :
    n < 10 ^ digitLimit := by
  obtain ⟨hfinite, hreal⟩ := div_thousand_eq_ok.mp h
  obtain rfl := Number.real.inj hreal
  rw [Int.cast_natCast] at hx hfinite
  obtain ⟨v, hv, hround⟩ | hround := Quantity.lt_zero_iff.mp hx
  · have hhigh : (n / 1000 : Rat) < 2 * binaryLimit := by
      by_contra hlarge
      rw [binary64_of_large (not_lt.mp hlarge)] at hround
      cases hround
    have hsmall : 2000 * binaryLimit ≤ 10 ^ digitLimit := by decide +kernel
    have hlimit : (n : Rat) < (2000 * binaryLimit : Nat) := by
      push_cast
      linarith
    exact (Nat.cast_lt.mp hlimit).trans_le hsmall
  · exact absurd hround (hfinite false)

theorem add_fade (all : Overrides) {m n : Nat} (hm : m < 10 ^ digitLimit) (hn : n < 10 ^ digitLimit) :
    all.add .fade (pairText (Nat.toDigits 10 m) (Nat.toDigits 10 n))
      = .ok { all with fades := some ((m : Int), (n : Int)) } := by
  rw [Overrides.add, pairOf_pairText (toDigits_numeral m) (toDigits_numeral n)]
  dsimp only
  rw [readWhole_toDigits hm, readWhole_toDigits hn,
    List.isEmpty_eq_false_iff.mpr Nat.toDigits_ne_nil]
  rfl

theorem fading_eq {motion : Motion} {millis : Int} {duration : Quantity}
    (hdiv : (Number.whole millis).div 1000 = .ok (.real duration))
    (hpos : Quantity.lt (.finite 0) duration = true) :
    Overrides.fading motion millis = .ok (some { motion, duration }) := by
  rw [Overrides.fading, hdiv]
  show (Animation.decode (.obj [("type", .str motion.name), ("duration", .num (.real duration))])
    |>.toExcept) >>= _ = _
  rw [Animation.decode_short motion hpos]
  rfl

/-- The fades of an animation are read as the animation. -/
theorem animationOf_fades {animation : Animation} (h : animation.IsScript) {n : Nat} (hn : 0 < n)
    (hdiv : (Number.whole n).div 1000 = .ok (.real animation.duration)) {all : Overrides}
    (hall : all.fades =
      some (((fadesOf animation.motion n).1 : Int), ((fadesOf animation.motion n).2 : Int))) :
    all.animationOf = .ok (some animation) := by
  have hne : (n : Int) ≠ 0 := by exact_mod_cast hn.ne'
  have hmotion := h.motion
  rw [List.mem_cons, List.mem_cons, List.mem_singleton] at hmotion
  rw [Overrides.animationOf, hall, h.only]
  rcases hmotion with hmotion | hmotion | hmotion
  · rw [hmotion]
    dsimp only [fadesOf]
    rw [if_pos ⟨hne, hne⟩, max_self, fading_eq hdiv h.positive]
  · rw [hmotion]
    dsimp only [fadesOf]
    rw [if_neg (by simp), if_pos hne, fading_eq hdiv h.positive]
  · rw [hmotion]
    dsimp only [fadesOf]
    rw [if_neg (by simp), if_neg (by simp), if_pos hne, fading_eq hdiv h.positive]

/-- **The tag of a fade tells the fade.** -/
theorem exists_fadeTags {animation : Animation} (h : animation.IsScript) (all : Overrides) :
    ∃ texts after, fadeTags animation = .ok texts ∧ Tells texts all after
      ∧ after.animationOf = .ok (some animation) ∧ after.style = all.style
      ∧ after.positionOf = all.positionOf := by
  obtain ⟨n, hn, hmillis, duration, hdiv, hsame⟩ := h.millis
  obtain rfl : duration = animation.duration := Quantity.eq_of_pos hsame h.positive
  have hfew := lt_of_div_eq hdiv h.positive
  have hpair : (fadesOf animation.motion n).1 < 10 ^ digitLimit
      ∧ (fadesOf animation.motion n).2 < 10 ^ digitLimit := by
    have hzero : 0 < 10 ^ digitLimit := hn.trans hfew
    unfold fadesOf
    split
    · exact ⟨hfew, hfew⟩
    · exact ⟨hfew, hzero⟩
    · exact ⟨hzero, hfew⟩
  have htags : fadeTags animation = .ok
      ["\\fad(" ++ toString ((fadesOf animation.motion n).1 : Int) ++ ","
        ++ toString ((fadesOf animation.motion n).2 : Int) ++ ")"] := by
    have hmotion := h.motion
    rw [List.mem_cons, List.mem_cons, List.mem_singleton] at hmotion
    rcases hmotion with hmotion | hmotion | hmotion <;>
    · rw [fadeTags, hmotion]
      exact bind_eq_ok.mpr ⟨_, hmillis, rfl⟩
  refine ⟨_, { all with fades := some _ }, htags, .tag _ ?_ ?_ (add_fade all hpair.1 hpair.2),
    animationOf_fades h hn hdiv rfl, rfl, rfl⟩
  · simp only [String.toList_append, toList_toString_int, show ∀ n : Nat, ¬ (n : Int) < 0 by omega]
    simp [written, Tag.word, pairText]
  · exact ⟨isTagValue_pairText (toDigits_numeral _) (toDigits_numeral _), by rintro ⟨⟩⟩

end Script
end Montage
