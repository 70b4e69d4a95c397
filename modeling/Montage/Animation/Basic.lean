import Montage.Document.Decoder

/-!
# Animations

An animation moves or fades a layer at the beginning or the end of the window in which it is
visible.  This file holds what an animation is; `Animation.Motion` holds what it does.
-/

set_option autoImplicit false

namespace Montage

/-- The kinds of animation. -/
inductive Motion where
  | fade
  | fadeIn
  | fadeOut
  | slideIn
  | scale
  | zoomIn
  | bounce
  | pulse
  | shake
  | glow
  | still
  deriving DecidableEq, Repr

namespace Motion

/-- All kinds. -/
def all : List Motion :=
  [fade, fadeIn, fadeOut, slideIn, scale, zoomIn, bounce, pulse, shake, glow, still]

/-- The name of a kind in documents. -/
def name : Motion → String
  | fade => "fade"
  | fadeIn => "fade_in"
  | fadeOut => "fade_out"
  | slideIn => "slide_in"
  | scale => "scale"
  | zoomIn => "zoom_in"
  | bounce => "bounce"
  | pulse => "pulse"
  | shake => "shake"
  | glow => "glow"
  | still => "none"

/-- The kind of a name. -/
def ofName? (s : String) : Option Motion := all.find? fun motion ↦ motion.name == s

/-- How far a kind moves where nothing is said: pixels for a slide, a bounce, a shake and the
border of a glow, a share of the size for a pulse. -/
def defaultAmount : Motion → Quantity
  | slideIn => .finite 200
  | bounce => .finite 20
  | pulse => binary64 (1 / 10)
  | shake => .finite 5
  | glow => .finite 4
  | _ => .finite 0

end Motion

/-- Where a slide comes from. -/
inductive Direction where
  | left
  | right
  | up
  | down
  deriving DecidableEq, Repr

namespace Direction

/-- The name of a direction in documents. -/
def name : Direction → String
  | left => "left"
  | right => "right"
  | up => "up"
  | down => "down"

/-- The direction of a name. -/
def ofName? (s : String) : Option Direction :=
  [left, right, up, down].find? fun direction ↦ direction.name == s

end Direction

/-- An animation of a layer. -/
structure Animation where
  motion : Motion
  duration : Quantity := .finite (1 / 2)
  delay : Quantity := .finite 0
  direction : Option Direction := none
  intensity : Option Quantity := none
  color : Option String := none
  deriving DecidableEq, Repr

namespace Animation

/-- How far the animation moves. -/
def amount (animation : Animation) : Quantity :=
  animation.intensity.getD animation.motion.defaultAmount

/-- An animation as a document. -/
def encode (animation : Animation) : Json := .obj <|
  always "type" (.str animation.motion.name)
    ++ always "duration" (.quantity animation.duration)
    ++ always "delay" (.quantity animation.delay)
    ++ ifSome "direction" animation.direction (fun direction ↦ .str direction.name)
    ++ ifSome "intensity" animation.intensity .quantity
    ++ ifSome "color" animation.color .str

/-- The length of an animation where nothing is said, in seconds. -/
def defaultDuration : Json := .quantity (.finite (1 / 2))

variable [Rounding]

/-- An animation from a document. -/
def decode : Decoder Animation := Decoder.object fun document ↦
  let above (x : Quantity) : Bool := Quantity.lt (.finite 0) x
  let notBelow (x : Quantity) : Bool := Quantity.le (.finite 0) x
  Animation.mk
    <$> Decoder.needed "type" (Decoder.name Motion.ofName?) document
    <*> Decoder.field "duration" (.finite (1 / 2)) (Decoder.quantity.such above) document
    <*> Decoder.field "delay" (.finite 0) (Decoder.quantity.such notBelow) document
    <*> Decoder.optField "direction" (Decoder.name Direction.ofName?) document
    <*> Decoder.optField "intensity" Decoder.quantity document
    <*> Decoder.optField "color" Decoder.text document

/-- The name of a kind for the short names that captions use. -/
def longName : String → String
  | "slide" => Motion.slideIn.name
  | "typewriter" => Motion.fadeIn.name
  | name => name

/-- An animation from what a caller may give: nothing, the name of a kind, or a document.  The
name of no animation at all gives nothing. -/
def coerce (value : Json) (duration : Json) : Except Error (Option Animation) :=
  match value with
  | .null => .ok none
  | .str name =>
    if name = Motion.still.name then .ok none
    else
      let document := .obj [("type", .str (longName name)), ("duration", duration)]
      ((decode document).toExcept).map some
  | value => ((decode value).toExcept).map some

end Animation
end Montage
