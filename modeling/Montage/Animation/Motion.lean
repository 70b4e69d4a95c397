import Montage.Animation.Basic
import Montage.Document.Arithmetic
import Montage.Filter.Graph

/-!
# What an animation does

For drawn text an animation replaces options of the filter by expressions over the time of the
frame.  Every expression is built so that it takes the resting value once the animation is over:
a slide arrives at the resting place, a bounce and a shake end at it, a growing font reaches its
size.

For pictures only fades have a meaning; they become filters on the alpha channel.
-/

set_option autoImplicit false

namespace Montage
namespace Animation

variable [Rounding]

/-! ## Building blocks -/

/-- How much of a span is over: zero before `start`, one after `duration` more seconds. -/
def progress (start duration : Number) : Except Error Expr := do
  let elapsed ← Expr.time.sub (.num start)
  return Expr.clip (← elapsed.div (.num duration)) (.num 0) (.num 1)

/-- How much is left of the last `duration` seconds before `stop`. -/
def remainder (stop : Expr) (duration : Number) : Except Error Expr := do
  let left ← stop.sub .time
  return Expr.clip (← left.div (.num duration)) (.num 0) (.num 1)

/-- The angle of one turn for each second since `start`. -/
def turns (start : Number) : Except Error Expr := do
  let turn ← (Expr.num 2).mul .pi
  turn.mul (← Expr.time.sub (.num start))

/-- One until `start + duration`, and zero from then on. -/
def during (start duration : Number) : Except Error Expr := do
  return .call "lt" [.time, .num (← start.add duration)]

/-! ## Drawn text -/

/-- When an animation begins in a window from `start` on. -/
def begins (animation : Animation) (start : Number) : Except Error Number :=
  start.add (.real animation.delay)

/-- The options of drawn text that an animation replaces, in the order in which they are set.  The
window begins at `start`, with the delay at `begins`, and lasts to `stop`; `x`, `y` and `fontSize`
are what the text rests at. -/
def textOptionsFrom (animation : Animation) (begins : Number) (stop : Option Expr)
    (x y fontSize : Expr) : Except Error (List (String × OptionValue)) := do
  let duration := Number.real animation.duration
  let amount := Expr.quantity animation.amount
  let arrived ← progress begins duration
  let leaving ← stop.mapM fun stop ↦ remainder stop duration
  match animation.motion with
  | .fadeIn => return [("alpha", .expr arrived)]
  | .fadeOut => return (leaving.map fun e ↦ ("alpha", OptionValue.expr e)).toList
  | .fade =>
    return match leaving with
      | some e => [("alpha", .expr (.call "min" [arrived, e]))]
      | none => [("alpha", .expr arrived)]
  | .slideIn =>
    let ahead ← amount.mul (← (Expr.num 1).sub arrived)
    let moved ← match animation.direction.getD .left with
      | .left => do pure ("x", ← x.sub ahead)
      | .right => do pure ("x", ← x.add ahead)
      | .up => do pure ("y", ← y.add ahead)
      | .down => do pure ("y", ← y.sub ahead)
    return [(moved.1, .expr moved.2), ("alpha", .expr arrived)]
  | .scale | .zoomIn =>
    let size ← fontSize.mul arrived
    return [("fontsize", .expr (.call "max" [.num 1, size]))]
  | .bounce =>
    let angle ← (← turns begins).div (.num duration)
    let height ← amount.mul (.call "abs" [.call "sin" [angle]])
    let lift ← height.mul (← during begins duration)
    return [("y", .expr (← y.sub lift))]
  | .pulse =>
    let wave ← amount.mul (.call "sin" [← turns begins])
    let factor ← (Expr.num 1).add wave
    return [("fontsize", .expr (← fontSize.mul factor))]
  | .shake =>
    let angle ← (Expr.num 50).mul (← Expr.time.sub (.num begins))
    let wave ← amount.mul (.call "sin" [angle])
    let jitter ← wave.mul (← during begins duration)
    return [("x", .expr (← x.add jitter))]
  | .glow =>
    return [("borderw", .expr amount),
      ("bordercolor", .plain (match animation.color with
        | some color => if color.isEmpty then "white@0.6" else color
        | none => "white@0.6"))]
  | .still => return []

/-- The options of drawn text that an animation replaces in a window from `start` to `stop`. -/
def textOptions (animation : Animation) (start : Number) (stop : Option Expr)
    (x y fontSize : Expr) : Except Error (List (String × OptionValue)) := do
  if animation.motion = .still then return []
  animation.textOptionsFrom (← animation.begins start) stop x y fontSize

omit [Rounding] in
/-- The axis on which an animation moves the text: across, down, or neither. -/
def moves (animation : Animation) : Bool × Bool :=
  match animation.motion with
  | .slideIn =>
    match animation.direction.getD .left with
    | .left | .right => (true, false)
    | .up | .down => (false, true)
  | .shake => (true, false)
  | .bounce => (false, true)
  | _ => (false, false)

omit [Rounding] in
/-- Whether an animation changes the size of the text. -/
def resizes (animation : Animation) : Bool :=
  animation.motion = .scale || animation.motion = .zoomIn || animation.motion = .pulse

/-- The options that an animation replaces for a caller's values; those that the animation leaves
alone are not looked at. -/
def textOptionsFor (animation : Animation) (start stop : Json) (x y fontSize : Operand) :
    Except Error (List (String × OptionValue)) := do
  if animation.motion = .still then return []
  let begins ← animation.begins (← start.number)
  let stop ← match stop with
    | .null => pure none
    | stop => do pure (some (← Expr.ofJson stop))
  let used (wanted : Bool) (operand : Operand) : Except Error Expr :=
    if wanted then operand.toExpr else .ok (.num 0)
  animation.textOptionsFrom begins stop (← used animation.moves.1 x) (← used animation.moves.2 y)
    (← used animation.resizes fontSize)

/-! ## Pictures -/

omit [Rounding] in
/-- Whether an animation fades a picture in at its beginning. -/
def fadesIn (animation : Animation) : Bool :=
  animation.motion = .fade || animation.motion = .fadeIn

omit [Rounding] in
/-- Whether an animation fades a picture out at its end. -/
def fadesOut (animation : Animation) : Bool :=
  animation.motion = .fade || animation.motion = .fadeOut

/-- The filters that fade a picture in and out on its alpha channel.  The fade at the end begins
as early as the one at the beginning, but not before it. -/
def fadeFilters (animation : Animation) (start : Number) (stop : Option Number) :
    Except Error (List Filter) := do
  let begins ← animation.begins start
  let fade (direction : String) (at_ : Number) : Filter :=
    .named "fade" [("t", .plain direction), ("st", .num at_), ("d", .quantity animation.duration),
      ("alpha", .num 1)]
  let opening := if animation.fadesIn then [fade "in" begins] else []
  match stop with
  | some stop =>
    if animation.fadesOut then
      let closes ← stop.sub (.real animation.duration)
      return opening ++ [fade "out" (begins.max closes)]
    else return opening
  | none => return opening

/-- The filters that fade a picture for a caller's values; an end counts only where there is a fade
at the end. -/
def fadeFiltersFor (animation : Animation) (start stop : Json) : Except Error (List Filter) := do
  let start ← start.number
  let _ ← animation.begins start
  let stop ← match stop with
    | .null => pure none
    | stop => if animation.fadesOut then do pure (some (← stop.number)) else pure none
  animation.fadeFilters start stop

end Animation
end Montage
