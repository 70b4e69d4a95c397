import Montage.Document.Arithmetic
import Montage.Expr.Basic
import Montage.Position.Basic

/-!
# Placing content on an axis

A position becomes, for each axis, an expression over the size of the canvas and the extent of
the content: the coordinate, plus the offset, minus the share of the extent that the anchor
takes.  Where no coordinate is an expression, a position is also a point of numbers, for which
the anchor does not count.
-/

set_option autoImplicit false

namespace Montage

/-- The names under which a filter knows the canvas and the content it places. -/
structure Frame where
  width : String
  height : String
  extentWidth : String
  extentHeight : String

/-- The names for text drawn on the canvas. -/
def Frame.text : Frame := ⟨"w", "h", "text_w", "text_h"⟩

/-- The names for a picture laid over the canvas. -/
def Frame.overlay : Frame := ⟨"main_w", "main_h", "overlay_w", "overlay_h"⟩

variable [Rounding]

/-- The coordinate itself, before offset and anchor.  Only a percentage looks at the canvas. -/
def Placement.base (placement : Placement) (canvas : Operand) : Except Error Expr := do
  match placement with
  | .percent x =>
    let share ← (Number.real x).div 100
    (← canvas.toExpr).mul (.num share)
  | .pixels n => return .num n
  | .expression text => return .raw text

omit [Rounding] in
/-- Whether a share is one half. -/
def isHalf (share : Json) : Bool :=
  match share.number? with
  | some n => n.eq (.real (.finite (1 / 2)))
  | none => false

/-- An expression less the share of an extent that an anchor takes.  Half an extent is written as a
division, and without a share nobody looks at the extent. -/
def lessShare (e : Expr) (extent : Operand) (share : Json) : Except Error Expr := do
  if isHalf share then e.sub (← (← extent.toExpr).div (.num 2))
  else if share.isTruthy then
    let extent ← extent.toExpr
    e.sub (← extent.mul (← Expr.ofJson share))
  else return e

/-- One axis of a position: the coordinate and the offset, less the share of the extent. -/
def Coordinate.resolve (coordinate : Coordinate) (canvas extent : Operand) (share : Json)
    (offset : Operand) : Except Error Expr := do
  let base ← coordinate.classify.base canvas
  let moved ← base.add (← offset.toExpr)
  lessShare moved extent share

namespace Position

omit [Rounding] in
/-- The share of the content's width before the anchor; the left edge without an anchor. -/
def horizontalShare (position : Position) : Number :=
  .real (.finite ((position.anchor.map Anchor.horizontal).getD 0))

omit [Rounding] in
/-- The share of the content's height above the anchor; the upper edge without an anchor. -/
def verticalShare (position : Position) : Number :=
  .real (.finite ((position.anchor.map Anchor.vertical).getD 0))

/-- The expressions for both axes of a position. -/
def resolve (position : Position) (frame : Frame) : Except Error (Expr × Expr) := do
  let x ← position.x.resolve (.expr (.var frame.width)) (.expr (.var frame.extentWidth))
    (.num position.horizontalShare) (.expr (.num position.dx))
  let y ← position.y.resolve (.expr (.var frame.height)) (.expr (.var frame.extentHeight))
    (.num position.verticalShare) (.expr (.num position.dy))
  return (x, y)

/-- One coordinate as a number of pixels, if it is not an expression.  Only a percentage looks at
the size of the canvas, which may be any value until then. -/
def axisPoint (coordinate : Coordinate) (canvas : Json) (offset : Number) :
    Except Error (Option Number) := do
  match coordinate.classify with
  | .expression _ => return none
  | .percent x =>
    let pixels ← (← (← canvas.number).mul (.real x)).div 100
    return some (← pixels.add offset)
  | .pixels n => return some (← n.add offset)

/-- The point of a position in pixels, if neither coordinate is an expression. -/
def point (position : Position) (width height : Json) :
    Except Error (Option (Number × Number)) := do
  match ← axisPoint position.x width position.dx with
  | none => return none
  | some x =>
    match ← axisPoint position.y height position.dy with
    | none => return none
    | some y => return some (x, y)

end Position
end Montage
