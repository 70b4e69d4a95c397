import Montage.Style.Basic

/-!
# Render options

What belongs to the timeline as a whole: the canvas, the frame rate, the quality, the output's
length and cut, and the style under all others.

Options are changed by a document of changes: a field that is not written keeps its value, and
the rules are those for a whole document.
-/

set_option autoImplicit false

namespace Montage

/-! ## Parts -/

/-- How much the output is compressed. -/
inductive Quality where
  | low
  | medium
  | high
  | ultra
  deriving DecidableEq, Repr

namespace Quality

/-- The name of a quality in documents. -/
def name : Quality → String
  | low => "low"
  | medium => "medium"
  | high => "high"
  | ultra => "ultra"

/-- The quality of a name. -/
def ofName? (s : String) : Option Quality :=
  [low, medium, high, ultra].find? fun quality ↦ quality.name == s

end Quality

/-- The part of the output that is kept. -/
structure TrimRange where
  start : Quantity := .finite 0
  stop : Option Quantity := none
  deriving DecidableEq, Repr

/-- The rectangle of the output that is kept. -/
structure CropBox where
  width : Int
  height : Int
  x : Int := 0
  y : Int := 0
  deriving DecidableEq, Repr

/-- The size of the output; a negative side follows from the other one. -/
structure ScaleSize where
  width : Int
  height : Int
  deriving DecidableEq, Repr

/-- What belongs to a timeline as a whole. -/
structure RenderOptions where
  aspectRatio : Option String := none
  width : Option Int := none
  height : Option Int := none
  fps : Quantity := .finite 30
  quality : Quality := .medium
  codec : Option String := none
  duration : Option Quantity := none
  trim : Option TrimRange := none
  crop : Option CropBox := none
  scale : Option ScaleSize := none
  backgroundColor : String := "black"
  defaultStyle : Option Style := none
  deriving DecidableEq, Repr

/-! ## Aspect ratios -/

/-- A side of an aspect ratio: digits, and possibly a point and more digits. -/
def ratioSide? (s : List Char) : Option Quantity :=
  let (whole, rest) := s.span isDecimal
  let isFraction := match rest with
    | [] => true
    | '.' :: more => !more.isEmpty && more.all isDecimal
    | _ => false
  if whole.isEmpty || !isFraction then none else readQuantityBy .free s

/-- The two sides of an aspect ratio such as `16:9`. -/
def ratioSides? (s : String) : Option (Quantity × Quantity) :=
  match splitAll ':' s.toList with
  | [a, b] => do
    let a ← ratioSide? (trim a)
    let b ← ratioSide? (trim b)
    return (a, b)
  | _ => none

/-- The canvas of the usual aspect ratios. -/
def ratioSize? : String → Option (Int × Int)
  | "16:9" => some (1920, 1080)
  | "9:16" => some (1080, 1920)
  | "1:1" => some (1080, 1080)
  | "4:3" => some (1440, 1080)
  | "4:5" => some (1080, 1350)
  | "21:9" => some (2560, 1080)
  | _ => none

namespace RenderOptions

variable [Rounding]

/-- The size of the canvas: the size that was set, or else one of the aspect ratio with a height
of 1080 and an even width, or else 1920 by 1080. -/
def canvasSize (options : RenderOptions) : Except Error (Int × Int) := do
  match options.width, options.height with
  | some w, some h => return (w, h)
  | _, _ =>
    match options.aspectRatio with
    | none => return (1920, 1080)
    | some ratio =>
      if ratio.isEmpty then return (1920, 1080)
      match ratioSize? ratio with
      | some size => return size
      | none =>
        match ratioSides? ratio with
        | none => throw .missingField
        | some (a, b) =>
          let wide ← (Number.whole 1080).mul (.real a)
          let half ← (← wide.div (.real b)).div 2
          return (max 2 ((← half.roundWhole) * 2), 1080)

/-! ## Documents -/

/-- A kept part of the output from a document. -/
def decodeTrim : Decoder TrimRange := Decoder.object fun document ↦
  let time := Decoder.quantity.such Style.isNonnegative
  TrimRange.mk <$> Decoder.field "start" (.finite 0) time document
    <*> Decoder.optField "end" time document

omit [Rounding] in
/-- A kept rectangle from a document. -/
def decodeCrop : Decoder CropBox := Decoder.object fun document ↦
  CropBox.mk
    <$> Decoder.needed "width" (Decoder.whole.such fun n ↦ 0 < n) document
    <*> Decoder.needed "height" (Decoder.whole.such fun n ↦ 0 < n) document
    <*> Decoder.field "x" 0 (Decoder.whole.such fun n ↦ 0 ≤ n) document
    <*> Decoder.field "y" 0 (Decoder.whole.such fun n ↦ 0 ≤ n) document

omit [Rounding] in
/-- A size from a document. -/
def decodeScale : Decoder ScaleSize := Decoder.object fun document ↦
  ScaleSize.mk <$> Decoder.needed "width" Decoder.whole document
    <*> Decoder.needed "height" Decoder.whole document

/-- The options that a document of changes makes of others. -/
def decodeOver (base : RenderOptions) : Decoder RenderOptions := Decoder.object fun document ↦
  let side := Decoder.optional (Decoder.whole.such fun n ↦ 0 < n)
  RenderOptions.mk
    <$> Decoder.field "aspectRatio" base.aspectRatio
      (Decoder.optional (Decoder.text.such fun s ↦ (ratioSides? s).isSome)) document
    <*> Decoder.field "width" base.width side document
    <*> Decoder.field "height" base.height side document
    <*> Decoder.field "fps" base.fps
      (Decoder.quantity.such fun x ↦ Style.isPositive x && x.isFinite) document
    <*> Decoder.field "quality" base.quality (Decoder.name Quality.ofName?) document
    <*> Decoder.field "codec" base.codec
      (Decoder.optional (Decoder.text.such fun s ↦ ["h264", "h265", "vp9"].contains s)) document
    <*> Decoder.field "duration" base.duration
      (Decoder.optional (Decoder.quantity.such fun x ↦ Style.isNonnegative x && x.isFinite))
      document
    <*> Decoder.field "trim" base.trim (Decoder.optional decodeTrim) document
    <*> Decoder.field "crop" base.crop (Decoder.optional decodeCrop) document
    <*> Decoder.field "scale" base.scale (Decoder.optional decodeScale) document
    <*> Decoder.field "backgroundColor" base.backgroundColor Decoder.text document
    <*> Decoder.field "defaultStyle" base.defaultStyle (Decoder.optional Style.decode) document

/-- The options of a document. -/
def decode : Decoder RenderOptions := decodeOver {}

omit [Rounding] in
/-- A kept part of the output as a document. -/
def encodeTrim (trim : TrimRange) : Json := .obj <|
  always "start" (.quantity trim.start) ++ ifSome "end" trim.stop .quantity

omit [Rounding] in
/-- A kept rectangle as a document. -/
def encodeCrop (crop : CropBox) : Json := .obj <|
  always "width" (.whole crop.width) ++ always "height" (.whole crop.height)
    ++ always "x" (.whole crop.x) ++ always "y" (.whole crop.y)

omit [Rounding] in
/-- A size as a document. -/
def encodeScale (scale : ScaleSize) : Json := .obj <|
  always "width" (.whole scale.width) ++ always "height" (.whole scale.height)

omit [Rounding] in
/-- Options as a document. -/
def encode (options : RenderOptions) : Json := .obj <|
  ifSome "aspectRatio" options.aspectRatio .str
    ++ ifSome "width" options.width .whole
    ++ ifSome "height" options.height .whole
    ++ always "fps" (.quantity options.fps)
    ++ always "quality" (.str options.quality.name)
    ++ ifSome "codec" options.codec .str
    ++ ifSome "duration" options.duration .quantity
    ++ ifSome "trim" options.trim encodeTrim
    ++ ifSome "crop" options.crop encodeCrop
    ++ ifSome "scale" options.scale encodeScale
    ++ always "backgroundColor" (.str options.backgroundColor)
    ++ ifSome "defaultStyle" options.defaultStyle Style.encode

end RenderOptions
end Montage
