import Montage.Animation.Basic
import Montage.Position.Basic
import Montage.Style.Basic

/-!
# Layers

A layer is visible, or audible, in a window of the timeline, may have a place and a style, and
carries one of six kinds of content.  A layer without a duration is open: it lasts to the end of
the timeline.
-/

set_option autoImplicit false

namespace Montage

/-! ## Content -/

/-- How a picture is fitted into its box. -/
inductive Fit where
  | contain
  | cover
  | stretch
  | natural
  deriving DecidableEq, Repr

namespace Fit

/-- The name of a fit in documents. -/
def name : Fit → String
  | contain => "contain"
  | cover => "cover"
  | stretch => "stretch"
  | natural => "none"

/-- The fit of a name. -/
def ofName? (s : String) : Option Fit :=
  [contain, cover, stretch, natural].find? fun fit ↦ fit.name == s

end Fit

/-- A file or address, and the part of it that is used. -/
structure Source where
  path : String
  trimStart : Option Quantity := none
  trimEnd : Option Quantity := none
  deriving DecidableEq, Repr

/-- A moving picture, possibly with sound. -/
structure Video where
  source : Source
  volume : Quantity := .finite 1
  audio : Bool := true
  fit : Fit := .contain
  width : Option Int := none
  height : Option Int := none
  scale : Option Quantity := none
  borderWidth : Int := 0
  borderColor : String := "white"
  transition : Option Animation := none
  deriving DecidableEq, Repr

/-- Whether the picture has a size of its own, so that it does not fill the canvas. -/
def Video.isSized (video : Video) : Bool :=
  video.width.isSome || video.height.isSome || video.scale.isSome

/-- Sound alone. -/
structure Audio where
  source : Source
  volume : Quantity := .finite 1
  fadeIn : Option Quantity := none
  fadeOut : Option Quantity := none
  tempo : Option Quantity := none
  lowpass : Option Quantity := none
  highpass : Option Quantity := none
  echoDelay : Option Quantity := none
  echoDecay : Option Quantity := none
  loop : Bool := false
  deriving DecidableEq, Repr

/-- A slow zoom towards a point of a picture. -/
structure PanZoom where
  startZoom : Quantity := .finite 1
  endZoom : Quantity := binary64 (12 / 10)
  focusX : Quantity := .finite (1 / 2)
  focusY : Quantity := .finite (1 / 2)
  deriving DecidableEq, Repr

/-- A still picture. -/
structure Image where
  source : Source
  width : Option Int := none
  height : Option Int := none
  panZoom : Option PanZoom := none
  transition : Option Animation := none
  deriving DecidableEq, Repr

/-- Text on the canvas. -/
structure Caption where
  text : String := ""
  animation : Option Animation := none
  trackStyle : Option Style := none
  language : Option String := none
  deriving DecidableEq, Repr

/-- The value of a parameter of a filter. -/
inductive ParamValue where
  | flag (b : Bool)
  | num (n : Number)
  | text (s : String)
  deriving DecidableEq, Repr

/-- A filter by its name, with parameters in the order in which they were given. -/
structure Effect where
  name : String
  params : List (String × ParamValue) := []
  deriving DecidableEq, Repr

/-- What a layer shows or plays. -/
inductive Content where
  | video (video : Video)
  | audio (audio : Audio)
  | image (image : Image)
  | text (text : String) (transition : Option Animation)
  | caption (caption : Caption)
  | filter (effect : Effect)
  deriving DecidableEq, Repr

namespace Content

/-- The name of a kind of content in documents. -/
def kind : Content → String
  | video _ => "video"
  | audio _ => "audio"
  | image _ => "image"
  | text _ _ => "text"
  | caption _ => "caption"
  | filter _ => "filter"

/-- Whether the content is a filter. -/
def isFilter : Content → Bool
  | filter _ => true
  | _ => false

/-- The text of content that is text. -/
def text? : Content → Option String
  | text s _ => some s
  | caption c => some c.text
  | _ => none

end Content

/-! ## Layers -/

/-- One layer of a timeline. -/
structure Layer where
  startTime : Quantity := .finite 0
  duration : Option Quantity := none
  position : Option Position := none
  style : Option Style := none
  content : Content
  deriving DecidableEq, Repr

namespace Layer

variable [Rounding]

/-- When the layer ends; nothing for an open layer. -/
def endTime (layer : Layer) : Option Quantity :=
  layer.duration.map layer.startTime.add

/-- The layer, moved to a later time. -/
def shifted (layer : Layer) (offset : Quantity) : Layer :=
  { layer with startTime := layer.startTime.add offset }

end Layer
end Montage
