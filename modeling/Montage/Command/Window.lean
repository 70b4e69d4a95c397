import Montage.Filter.Graph
import Montage.Timeline.Basic

/-!
# When a layer is visible

A layer is visible from its start until before its end.  On the canvas this is an option of its
filter; the option is left out where it would always hold.
-/

set_option autoImplicit false

namespace Montage
namespace Command

/-- The canvas and the length of the output. -/
structure Canvas where
  width : Int
  height : Int
  fps : Quantity
  duration : Quantity
  deriving DecidableEq, Repr

variable [Rounding]

/-- The end of a layer; an open layer lasts as long as the output. -/
def effectiveEnd (canvas : Canvas) (layer : Layer) : Quantity :=
  layer.endTime.getD canvas.duration

/-- The expression that holds while a layer is visible, unless it is always visible. -/
def enableOf (canvas : Canvas) (layer : Layer) : Except Error (Option Expr) := do
  let fromStart := layer.startTime.le (.finite 0)
  let toEnd := match layer.endTime with
    | none => true
    | some stop => canvas.duration.le stop
  if fromStart && toEnd then return none
  return some (← Expr.window (.quantity layer.startTime)
    (some (.quantity (effectiveEnd canvas layer))))

omit [Rounding] in
/-- An option that is there if it has a value. -/
def optional (key : String) (value : Option OptionValue) : List (String × OptionValue) :=
  match value with
  | some value => [(key, value)]
  | none => []

omit [Rounding] in
/-- Whether a quantity is there and not zero. -/
def isSet (x : Option Quantity) : Bool :=
  match x with
  | some x => !x.eq (.finite 0)
  | none => false

omit [Rounding] in
/-- A text that is there and not empty. -/
def filled (s : Option String) : Option String := s.filter fun s ↦ !s.isEmpty

omit [Rounding] in
/-- The middle of the canvas, where text and video stand by default. -/
def middle : Position where
  x := .text "50%"
  y := .text "50%"
  anchor := some .center

end Command
end Montage
