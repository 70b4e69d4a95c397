import Montage.Position.Axis
import Montage.Proofs.Expr.Moment

/-!
# Where a position is

A position is turned into expressions, which a filter evaluates for every frame, and, where no
coordinate is an expression of its own, into a point.  Both say the same.  Where nothing is rounded,
each expression comes to `Coordinate.place`: the coordinate on the canvas, moved by the offset, less
the share of the content before the anchor; and the point is that place but for the content, at
which it does not look.

Canvas and content are of finite size.  The numbers of a position may be infinite or undefined, and
then both come to the same infinity or to nothing.
-/

set_option autoImplicit false

namespace Montage

variable [rounding : Rounding]

/-- Where a coordinate lies on a canvas: a share of the canvas, a number of pixels, or the value of
an expression. -/
def Placement.amount (placement : Placement) (moment : Moment) (canvas : Quantity) : Quantity :=
  match placement with
  | .percent x => (x.div (.finite 100)).mul canvas
  | .pixels n => n.exactly
  | .expression text => moment.given text

/-- Where content begins on one axis: at the coordinate, moved by an offset, less a share of the
extent of the content. -/
def Coordinate.place (coordinate : Coordinate) (moment : Moment) (canvas extent : Quantity)
    (share offset : Number) : Quantity :=
  ((coordinate.classify.amount moment canvas).add offset.exactly).sub (share.exactly.mul extent)

omit rounding in
/-- Whether a coordinate is an expression. -/
def Coordinate.IsExpression (coordinate : Coordinate) : Prop :=
  ∃ text, coordinate.classify = .expression text

section

variable (exact : rounding.IsExact)
include exact

/-! ## Expressions -/

/-- A coordinate is built with its value. -/
theorem Placement.base_same (placement : Placement) {moment : Moment} {canvas : String}
    (hcanvas : (moment.name canvas).isFinite = true) :
    ∃ e, placement.base (.expr (.var canvas)) = .ok e ∧
      (e.valueAt moment).Same (placement.amount moment (moment.name canvas)) := by
  cases placement with
  | percent x =>
    obtain ⟨share, hshare, hvalue⟩ := Number.div_same exact (.real x) (n := 100) (by decide)
    obtain ⟨e, he, hsame⟩ : ∃ e, (Expr.var canvas).mul (.num share) = .ok e ∧ (e.valueAt moment).Same
        (((Expr.var canvas).valueAt moment).mul ((Expr.num share).valueAt moment)) :=
      Expr.mul_same exact (by rintro ⟨⟩) fun _ ↦ by rwa [Expr.valueAt]
    refine ⟨e, ?_, hsame.trans ?_⟩
    · rw [base, hshare]
      exact he
    · rw [Expr.valueAt, Expr.valueAt, Quantity.mul_comm]
      exact hvalue.mul (.refl _)
  | pixels n =>
    refine ⟨.num n, rfl, ?_⟩
    rw [Expr.valueAt]
    exact .refl _
  | expression text =>
    refine ⟨.raw text, rfl, ?_⟩
    rw [Expr.valueAt]
    exact .refl _

/-- An expression is reduced by a share of a finite extent. -/
theorem lessShare_same (e : Expr) {moment : Moment} {extent : String}
    (hextent : (moment.name extent).isFinite = true) (share : Rat) :
    ∃ e', lessShare e (.expr (.var extent)) (.num (.real (.finite share))) = .ok e' ∧
      (e'.valueAt moment).Same
        ((e.valueAt moment).sub ((Quantity.finite share).mul (moment.name extent))) := by
  have hvar : (Expr.var extent).valueAt moment = moment.name extent := by rw [Expr.valueAt]
  obtain ⟨size, hsize⟩ := Quantity.isFinite_iff.mp hextent
  rw [lessShare]
  split
  · rename_i hhalf
    obtain rfl : share = 1 / 2 := beq_iff_eq.mp hhalf
    obtain ⟨half, hdiv, hhalf⟩ : ∃ half, (Expr.var extent).div (.num 2) = .ok half ∧
        (half.valueAt moment).Same
          (((Expr.var extent).valueAt moment).div ((Expr.num 2).valueAt moment)) :=
      Expr.div_same exact (by rw [Expr.valueAt]; decide) (by rintro ⟨⟩)
    obtain ⟨e', hsub, hsame⟩ := Expr.sub_same exact moment e half
    refine ⟨e', bind_eq_ok.mpr ⟨_, rfl, bind_eq_ok.mpr ⟨half, hdiv, hsub⟩⟩, hsame.trans ?_⟩
    refine Quantity.Same.sub exact (.refl _) (hhalf.trans ?_)
    rw [hvar, Expr.valueAt]
    refine .of_value? (Quantity.value?_div exact hsize (r := 2) rfl) ?_
    rw [Quantity.value?_mul rfl hsize (exact _)]
    exact congrArg some (by ring)
  split
  · let factor : Expr := .num (.real (.finite share))
    obtain ⟨part, hmul, hpart⟩ : ∃ part, (Expr.var extent).mul factor = .ok part ∧
        (part.valueAt moment).Same
          (((Expr.var extent).valueAt moment).mul (factor.valueAt moment)) :=
      Expr.mul_same exact (by rintro ⟨⟩) fun _ ↦ by rwa [hvar]
    obtain ⟨e', hsub, hsame⟩ := Expr.sub_same exact moment e part
    refine ⟨e', bind_eq_ok.mpr ⟨_, rfl, bind_eq_ok.mpr ⟨_, rfl, bind_eq_ok.mpr ⟨part, hmul, hsub⟩⟩⟩,
      hsame.trans ?_⟩
    refine Quantity.Same.sub exact (.refl _) (hpart.trans ?_)
    rw [hvar, Expr.valueAt, Quantity.mul_comm]
    exact .refl _
  · rename_i hzero
    have hshare : share = 0 := by
      rw [Json.isTruthy, Bool.not_eq_true, Bool.not_eq_false'] at hzero
      exact beq_iff_eq.mp hzero
    refine ⟨e, rfl, ?_⟩
    rw [hshare]
    refine (Quantity.sub_zero _).symm.trans ?_
    exact Quantity.Same.sub exact (.refl _) (Quantity.zero_mul hextent).symm

/-- **One axis is built with its place as its value.** -/
theorem Coordinate.resolve_same (coordinate : Coordinate) {moment : Moment} {canvas extent : String}
    (hcanvas : (moment.name canvas).isFinite = true)
    (hextent : (moment.name extent).isFinite = true) (share : Rat) (offset : Number) :
    ∃ e, coordinate.resolve (.expr (.var canvas)) (.expr (.var extent))
        (.num (.real (.finite share))) (.expr (.num offset)) = .ok e ∧
      (e.valueAt moment).Same (coordinate.place moment (moment.name canvas) (moment.name extent)
        (.real (.finite share)) offset) := by
  obtain ⟨base, hbase, hamount⟩ := Placement.base_same exact coordinate.classify hcanvas
  obtain ⟨moved, hmoved, hsum⟩ := Expr.add_same exact moment base (.num offset)
  obtain ⟨e, he, hvalue⟩ := lessShare_same exact moved hextent share
  refine ⟨e, bind_eq_ok.mpr ⟨base, hbase, bind_eq_ok.mpr ⟨_, rfl, bind_eq_ok.mpr
    ⟨moved, hmoved, he⟩⟩⟩, hvalue.trans (.sub exact (hsum.trans ?_) (.refl _))⟩
  rw [Expr.valueAt_num]
  exact hamount.add exact (.refl _)

/-! ## Points -/

/-- The point on one axis is the coordinate moved by the offset; an expression has none. -/
theorem Position.axisPoint_same (coordinate : Coordinate) (moment : Moment) {canvas : Number}
    (hcanvas : canvas.exactly.isFinite = true) (offset : Number) :
    ∃ found, axisPoint coordinate (.num canvas) offset = .ok found ∧
      (found = none ↔ coordinate.IsExpression) ∧
      ∀ p ∈ found, p.exactly.Same
        ((coordinate.classify.amount moment canvas.exactly).add offset.exactly) := by
  rw [axisPoint, Coordinate.IsExpression]
  cases coordinate.classify with
  | percent x =>
    obtain ⟨scaled, hscaled, hproduct⟩ := Number.mul_same exact canvas (.real x)
    obtain ⟨pixels, hpixels, hquotient⟩ := Number.div_same exact scaled (n := 100) (by decide)
    obtain ⟨p, hp, hsum⟩ := Number.add_same exact pixels offset
    refine ⟨some p, ?_, by simp, ?_⟩
    · exact bind_eq_ok.mpr ⟨canvas, rfl, bind_eq_ok.mpr ⟨scaled, hscaled, bind_eq_ok.mpr
        ⟨pixels, hpixels, bind_eq_ok.mpr ⟨p, hp, rfl⟩⟩⟩⟩
    · rintro _ ⟨⟩
      refine hsum.trans (.add exact (hquotient.trans ?_) (.refl _))
      exact (hproduct.div (by rintro ⟨⟩)).trans
        (Quantity.mul_div_comm exact hcanvas (r := 100) (by decide))
  | pixels n =>
    obtain ⟨p, hp, hsum⟩ := Number.add_same exact n offset
    refine ⟨some p, bind_eq_ok.mpr ⟨p, hp, rfl⟩, by simp, ?_⟩
    rintro _ ⟨⟩
    exact hsum
  | expression text => exact ⟨none, rfl, by simp, by rintro _ ⟨⟩⟩

/-- The point of a position, if it has one, is the point on both axes. -/
theorem Position.point_same (position : Position) (moment : Moment) {width height : Number}
    (hwidth : width.exactly.isFinite = true) (hheight : height.exactly.isFinite = true) :
    ∃ found, position.point (.num width) (.num height) = .ok found ∧
      (found = none ↔ position.x.IsExpression ∨ position.y.IsExpression) ∧
      ∀ p ∈ found,
        p.1.exactly.Same ((position.x.classify.amount moment width.exactly).add
          position.dx.exactly) ∧
        p.2.exactly.Same ((position.y.classify.amount moment height.exactly).add
          position.dy.exactly) := by
  obtain ⟨x, hx, hxnone, hxvalue⟩ := axisPoint_same exact position.x moment hwidth position.dx
  obtain ⟨y, hy, hynone, hyvalue⟩ := axisPoint_same exact position.y moment hheight position.dy
  rw [← hxnone, ← hynone]
  cases x with
  | none => exact ⟨none, bind_eq_ok.mpr ⟨none, hx, rfl⟩, by simp, by rintro _ ⟨⟩⟩
  | some x =>
    cases y with
    | none =>
      exact ⟨none, bind_eq_ok.mpr ⟨some x, hx, bind_eq_ok.mpr ⟨none, hy, rfl⟩⟩, by simp,
        by rintro _ ⟨⟩⟩
    | some y =>
      refine ⟨some (x, y), bind_eq_ok.mpr ⟨some x, hx, bind_eq_ok.mpr ⟨some y, hy, rfl⟩⟩, by simp,
        ?_⟩
      rintro _ ⟨⟩
      exact ⟨hxvalue x rfl, hyvalue y rfl⟩

/-! ## Both -/

/-- **The expressions and the point of a position say the same.**  On a canvas and for content of
finite size, both expressions of a position come to their places.  The position has a point just if
no coordinate is an expression, and that point, less the shares of the content before the anchor, is
at the same places. -/
theorem Position.resolve_agrees (position : Position) (frame : Frame) (moment : Moment)
    {width height : Number} (hwidth : moment.name frame.width = width.exactly)
    (hheight : moment.name frame.height = height.exactly)
    (canvas : width.exactly.isFinite = true ∧ height.exactly.isFinite = true)
    (content : (moment.name frame.extentWidth).isFinite = true ∧
      (moment.name frame.extentHeight).isFinite = true) :
    ∃ x y found, position.resolve frame = .ok (x, y) ∧
      position.point (.num width) (.num height) = .ok found ∧
      (x.valueAt moment).Same (position.x.place moment width.exactly
        (moment.name frame.extentWidth) position.horizontalShare position.dx) ∧
      (y.valueAt moment).Same (position.y.place moment height.exactly
        (moment.name frame.extentHeight) position.verticalShare position.dy) ∧
      (found = none ↔ position.x.IsExpression ∨ position.y.IsExpression) ∧
      ∀ p ∈ found,
        (p.1.exactly.sub (position.horizontalShare.exactly.mul
          (moment.name frame.extentWidth))).Same (x.valueAt moment) ∧
        (p.2.exactly.sub (position.verticalShare.exactly.mul
          (moment.name frame.extentHeight))).Same (y.valueAt moment) := by
  obtain ⟨x, hx, hxvalue⟩ := position.x.resolve_same exact (hwidth ▸ canvas.1) content.1
    ((position.anchor.map Anchor.horizontal).getD 0) position.dx
  obtain ⟨y, hy, hyvalue⟩ := position.y.resolve_same exact (hheight ▸ canvas.2) content.2
    ((position.anchor.map Anchor.vertical).getD 0) position.dy
  obtain ⟨found, hfound, hnone, hpoint⟩ := position.point_same exact moment canvas.1 canvas.2
  rw [hwidth] at hxvalue
  rw [hheight] at hyvalue
  refine ⟨x, y, found, bind_eq_ok.mpr ⟨x, hx, bind_eq_ok.mpr ⟨y, hy, rfl⟩⟩, hfound, hxvalue, hyvalue,
    hnone, fun p hp ↦ ?_⟩
  obtain ⟨hp₁, hp₂⟩ := hpoint p hp
  exact ⟨(hp₁.sub exact (.refl _)).trans hxvalue.symm, (hp₂.sub exact (.refl _)).trans hyvalue.symm⟩

end

/-- The lower right corner of the content, a little to the right of the middle near the top. -/
def cornerPosition : Position where
  x := .text "50%"
  y := .num (.real (.finite 20))
  anchor := some .bottomRight
  dx := .real (.finite 10)

/-- A picture of 200 by 100 pixels on a canvas of 1920 by 1080. -/
def pictureMoment : Moment where
  name
    | "main_w" => .finite 1920
    | "main_h" => .finite 1080
    | "overlay_w" => .finite 200
    | "overlay_h" => .finite 100
    | _ => .undefined
  function _ _ := .undefined
  given _ := .undefined

omit rounding in
/-- The picture begins at 770 by -80, which its corner, at 970 by 20, says too. -/
theorem cornerPosition_agrees : let _ : Rounding := .exact
    ∃ x y p, cornerPosition.resolve .overlay = .ok (x, y) ∧
      cornerPosition.point (.num 1920) (.num 1080) = .ok (some p) ∧
      (x.valueAt pictureMoment).Same (.finite 770) ∧ (y.valueAt pictureMoment).Same (.finite (-80)) ∧
      (p.1.exactly.sub (.finite 200)).Same (x.valueAt pictureMoment) ∧
      (p.2.exactly.sub (.finite 100)).Same (y.valueAt pictureMoment) := by
  intro _
  obtain ⟨x, y, found, hresolve, hpoint, hx, hy, hnone, hfound⟩ :=
    Position.resolve_agrees Rounding.exact_isExact cornerPosition .overlay pictureMoment
      (show pictureMoment.name "main_w" = Number.exactly 1920 by decide)
      (show pictureMoment.name "main_h" = Number.exactly 1080 by decide) (by decide) (by decide)
  have hxclass : cornerPosition.x.classify = .percent (.finite 50) := by decide +kernel
  have hyclass : cornerPosition.y.classify = .pixels (.real (.finite 20)) := rfl
  cases found with
  | none =>
    obtain ⟨text, h⟩ | ⟨text, h⟩ := hnone.mp rfl
    · rw [hxclass] at h
      cases h
    · cases h
  | some p =>
    have hwide : cornerPosition.horizontalShare.exactly.mul (.finite 200) = .finite 200 := by
      decide +kernel
    have hhigh : cornerPosition.verticalShare.exactly.mul (.finite 100) = .finite 100 := by
      decide +kernel
    refine ⟨x, y, p, hresolve, hpoint, hx.trans ?_, hy.trans ?_, hwide ▸ (hfound p rfl).1,
      hhigh ▸ (hfound p rfl).2⟩
    · rw [Coordinate.place, hxclass]
      exact congrArg Quantity.unsigned (by decide +kernel)
    · rw [Coordinate.place, hyclass]
      exact congrArg Quantity.unsigned (by decide +kernel)

end Montage
