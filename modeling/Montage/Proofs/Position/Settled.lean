import Montage.Position.Basic
import Montage.Proofs.Document.Field

/-!
# Settled positions

A coordinate that nobody gave is the whole number zero, and every other number in a position is a
quantity.  A document does not tell the two zeros apart: what is read back has a quantity in either
case (`Position.settled`), and settling a position a second time changes nothing.
-/

set_option autoImplicit false

namespace Montage

/-! ## Numbers in positions -/

/-- What stands in a position: a quantity, or the zero that nobody gave. -/
def Number.IsOffset (n : Number) : Prop := n = 0 ∨ ∃ x, n = .real x

/-- The number as a quantity, without rounding. -/
def Number.settled (n : Number) : Number := .real n.exactly

theorem Number.settled_real (x : Quantity) : (Number.real x).settled = .real x := rfl

theorem Number.settled_zero : (0 : Number).settled = .real (.finite 0) := rfl

theorem Number.isOffset_settled (n : Number) : n.settled.IsOffset := .inr ⟨_, rfl⟩

/-- The zero that nobody gave is the zero of quantities. -/
theorem Number.toQuantity_zero [Rounding] (hzero : Rounding.round 0 = .finite 0) :
    (0 : Number).toQuantity = .ok (.finite 0) := by
  show Number.toQuantity (.whole 0) = _
  rw [Number.toQuantity, show ((0 : Int) : Rat) = 0 from rfl, hzero]

/-- With a quantity on the other side, the zero that nobody gave counts as a quantity. -/
theorem Number.combine_real_zero [Rounding] (hzero : Rounding.round 0 = .finite 0)
    (exact : Int → Int → Int) (limited : Quantity → Quantity → Quantity) (x : Quantity) :
    Number.combine exact limited (.real x) 0 = .ok (.real (limited x (.finite 0))) := by
  show (do
    let y ← (0 : Number).toQuantity
    return Number.real (limited x y)) = _
  rw [Number.toQuantity_zero hzero]
  rfl

theorem Number.combine_zero_real [Rounding] (hzero : Rounding.round 0 = .finite 0)
    (exact : Int → Int → Int) (limited : Quantity → Quantity → Quantity) (x : Quantity) :
    Number.combine exact limited 0 (.real x) = .ok (.real (limited (.finite 0) x)) := by
  show (do
    let y ← (0 : Number).toQuantity
    return Number.real (limited y x)) = _
  rw [Number.toQuantity_zero hzero]
  rfl

/-- A coordinate is valid if it is a number that may stand in a position, or a text that is not
blank. -/
def Coordinate.IsValid : Coordinate → Prop
  | .num n => n.IsOffset
  | .text s => isAllBlank s = false

/-- The coordinate with its number as a quantity. -/
def Coordinate.settled : Coordinate → Coordinate
  | .num n => .num n.settled
  | .text s => .text s

theorem Coordinate.isValid_settled {coordinate : Coordinate} (h : coordinate.IsValid) :
    coordinate.settled.IsValid := by
  cases coordinate with
  | num n => exact n.isOffset_settled
  | text s => exact h

/-- Coordinates that say the same: numbers of one value, or one text. -/
inductive Coordinate.Equal : Coordinate → Coordinate → Prop where
  | num {m n : Number} (h : m.exactly = n.exactly) : Equal (.num m) (.num n)
  | text (s : String) : Equal (.text s) (.text s)

theorem Coordinate.equal_settled (coordinate : Coordinate) :
    coordinate.Equal coordinate.settled := by
  cases coordinate with
  | num n => exact .num rfl
  | text s => exact .text s

/-! ## Positions -/

theorem Anchor.ofName?_name (anchor : Anchor) : Anchor.ofName? anchor.name = some anchor := by
  cases anchor <;> decide

namespace Position

/-- Coordinates and offsets are what may stand in a position. -/
structure IsValid (position : Position) : Prop where
  x : position.x.IsValid
  y : position.y.IsValid
  dx : position.dx.IsOffset
  dy : position.dy.IsOffset

/-- The position with all its numbers as quantities. -/
def settled (position : Position) : Position where
  x := position.x.settled
  y := position.y.settled
  anchor := position.anchor
  dx := position.dx.settled
  dy := position.dy.settled

theorem settled_settled (position : Position) : position.settled.settled = position.settled := by
  obtain ⟨x, y, anchor, dx, dy⟩ := position
  cases x <;> cases y <;> rfl

theorem IsValid.settled {position : Position} (valid : position.IsValid) :
    position.settled.IsValid :=
  ⟨Coordinate.isValid_settled valid.x, Coordinate.isValid_settled valid.y,
    Number.isOffset_settled _, Number.isOffset_settled _⟩

theorem isValid_open : IsValid {} := ⟨.inl rfl, .inl rfl, .inl rfl, .inl rfl⟩

/-- Positions that say the same, numbers being compared by value. -/
structure Equal (a b : Position) : Prop where
  x : a.x.Equal b.x
  y : a.y.Equal b.y
  anchor : a.anchor = b.anchor
  dx : a.dx.exactly = b.dx.exactly
  dy : a.dy.exactly = b.dy.exactly

theorem equal_settled (position : Position) : position.Equal position.settled :=
  ⟨Coordinate.equal_settled _, Coordinate.equal_settled _, rfl, rfl, rfl⟩

/-! ## Documents -/

variable [Rounding]

theorem decodeCoordinate_isValid (value : Json) :
    (decodeCoordinate value).All Coordinate.IsValid := by
  unfold decodeCoordinate
  split
  · split
    · rintro _ ⟨⟩
    · rintro _ ⟨⟩
      exact Bool.eq_false_iff.mpr ‹_›
  · rintro _ ⟨⟩
  · exact Checked.all_map.mpr fun x _ ↦ .inr ⟨x, rfl⟩

theorem decodeOffset_isOffset (value : Json) : (decodeOffset value).All Number.IsOffset :=
  Checked.all_map.mpr fun x _ ↦ .inr ⟨x, rfl⟩

theorem decode_isValid (document : Json) : (decode document).All IsValid := by
  refine Decoder.all_object ?_
  simp only [Checked.all_seq, Checked.all_map]
  intro _ hx _ hy _ _ _ hdx _ hdy
  exact ⟨Decoder.all_field (.inl rfl) decodeCoordinate_isValid _ hx,
    Decoder.all_field (.inl rfl) decodeCoordinate_isValid _ hy,
    Decoder.all_field (.inl rfl) decodeOffset_isOffset _ hdx,
    Decoder.all_field (.inl rfl) decodeOffset_isOffset _ hdy⟩

omit [Rounding] in
theorem isRecord_encode (position : Position) : position.encode.IsRecord := by
  refine .of_camel ?_
  refine areCamel_append (areCamel_append (areCamel_append (areCamel_append ?_ ?_) ?_) ?_) ?_
  · exact areCamel_always _ (by decide)
  · exact areCamel_always _ (by decide)
  · exact areCamel_ifSome _ _ (by decide)
  · exact areCamel_always _ (by decide)
  · exact areCamel_always _ (by decide)

/-- A coordinate in a document is read as a quantity, if it is a number. -/
theorem decodeCoordinate_encode (hzero : Rounding.round 0 = .finite 0) {coordinate : Coordinate}
    (valid : coordinate.IsValid) :
    decodeCoordinate (encodeCoordinate coordinate) = .ok coordinate.settled := by
  cases coordinate with
  | text s => exact if_neg (by rw [valid]; exact Bool.false_ne_true)
  | num n =>
    obtain rfl | ⟨x, rfl⟩ := valid
    · have hread : Decoder.quantity (.num 0) = .ok (.finite 0) := by
        show Decoder.quantity (.num (.whole 0)) = _
        rw [Decoder.quantity, show (Number.whole 0).toQuantity = _ from Number.toQuantity_zero hzero]
      show (Decoder.quantity (.num 0)).map _ = _
      rw [hread]
      rfl
    · rfl

/-- **A valid position is settled by its document.** -/
theorem decode_encode (hzero : Rounding.round 0 = .finite 0) {position : Position}
    (valid : position.IsValid) : decode position.encode = .ok position.settled := by
  have hrecord := position.isRecord_encode
  have hanchor : Decoder.readIf "anchor" (Decoder.name Anchor.ofName?)
      (position.anchor.map fun anchor ↦ .str anchor.name) = .ok position.anchor :=
    Decoder.readIf_same fun anchor _ ↦ ⟨by rintro ⟨⟩, by rw [Decoder.name, anchor.ofName?_name]⟩
  simp only [decode, hrecord.object, hrecord.written?, Decoder.optField_eq, Decoder.field]
  simp [encode, Json.get?, decodeCoordinate_encode hzero valid.x,
    decodeCoordinate_encode hzero valid.y, decodeOffset, hanchor]
  rfl

theorem preset_isValid {name margin : Json} {position : Position}
    (h : preset name margin = .ok position) : position.IsValid := by
  rw [preset] at h
  split at h
  · obtain ⟨inset, -, h⟩ := bind_eq_ok.mp h
    dsimp only at h
    split at h
    · exact absurd h throw_ne_ok
    · exact absurd h throw_ne_ok
    · split at h
      · exact decode_isValid _ _ (Checked.toExcept_eq_ok.mp h)
      · exact absurd h throw_ne_ok
    · exact absurd h throw_ne_ok
  · cases h

theorem coerce_isValid {value : Json} {position : Position} (h : coerce value = .ok position) :
    position.IsValid := by
  unfold coerce at h
  split at h
  · cases h
    exact isValid_open
  · exact preset_isValid h
  · exact decode_isValid _ _ (Checked.toExcept_eq_ok.mp h)
  · cases h

end Position
end Montage
