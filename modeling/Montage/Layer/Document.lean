import Montage.Layer.Basic

/-!
# Layers as documents

A document of a layer has a `kind` and the fields of that kind, in one object.  Each kind has its
own rule, and the parts that builders may have made themselves (position, style, animation) come
in from outside, in `Parts`, so that builders and documents share the rules for everything else.

A start before zero is moved to zero; a start or duration that is not finite is refused.
-/

set_option autoImplicit false

namespace Montage
namespace Layer

/-! ## Encoding -/

/-- The file and the part of it that is used. -/
def encodeSource (source : Source) : List (String × Json) :=
  always "source" (.str source.path)
    ++ ifSome "trimStart" source.trimStart .quantity
    ++ ifSome "trimEnd" source.trimEnd .quantity

/-- A slow zoom as a document. -/
def encodePanZoom (zoom : PanZoom) : Json := .obj <|
  always "startZoom" (.quantity zoom.startZoom)
    ++ always "endZoom" (.quantity zoom.endZoom)
    ++ always "focusX" (.quantity zoom.focusX)
    ++ always "focusY" (.quantity zoom.focusY)

/-- The value of a parameter, as it is. -/
def paramJson : ParamValue → Json
  | .flag b => .bool b
  | .num n => .num n
  | .text s => .str s

/-- The value of a parameter in a document, where a free number that is not finite is null. -/
def encodeParam (value : ParamValue) : Json := (paramJson value).finiteOnly

/-- The fields that belong to the kind of content. -/
def encodeContent : Content → List (String × Json)
  | .video video =>
    encodeSource video.source
      ++ always "kind" (.str "video")
      ++ always "volume" (.quantity video.volume)
      ++ always "audio" (.bool video.audio)
      ++ always "fit" (.str video.fit.name)
      ++ ifSome "width" video.width .whole
      ++ ifSome "height" video.height .whole
      ++ ifSome "scale" video.scale .quantity
      ++ always "borderWidth" (.whole video.borderWidth)
      ++ always "borderColor" (.str video.borderColor)
      ++ ifSome "transition" video.transition Animation.encode
  | .audio audio =>
    encodeSource audio.source
      ++ always "kind" (.str "audio")
      ++ always "volume" (.quantity audio.volume)
      ++ ifSome "fadeIn" audio.fadeIn .quantity
      ++ ifSome "fadeOut" audio.fadeOut .quantity
      ++ ifSome "tempo" audio.tempo .quantity
      ++ ifSome "lowpass" audio.lowpass .quantity
      ++ ifSome "highpass" audio.highpass .quantity
      ++ ifSome "echoDelay" audio.echoDelay .quantity
      ++ ifSome "echoDecay" audio.echoDecay .quantity
      ++ always "loop" (.bool audio.loop)
  | .image image =>
    encodeSource image.source
      ++ always "kind" (.str "image")
      ++ ifSome "width" image.width .whole
      ++ ifSome "height" image.height .whole
      ++ ifSome "panZoom" image.panZoom encodePanZoom
      ++ ifSome "transition" image.transition Animation.encode
  | .text text transition =>
    always "kind" (.str "text")
      ++ always "text" (.str text)
      ++ ifSome "transition" transition Animation.encode
  | .caption caption =>
    always "kind" (.str "caption")
      ++ always "text" (.str caption.text)
      ++ ifSome "animation" caption.animation Animation.encode
      ++ ifSome "trackStyle" caption.trackStyle Style.encode
      ++ ifSome "language" caption.language .str
  | .filter effect =>
    always "kind" (.str "filter")
      ++ always "name" (.str effect.name)
      ++ always "params"
        (.obj (effect.params.map fun (key, value) ↦ (key, encodeParam value)))

/-- A layer as a document. -/
def encode (layer : Layer) : Json := .obj <|
  always "startTime" (.quantity layer.startTime)
    ++ ifSome "duration" layer.duration .quantity
    ++ ifSome "position" layer.position Position.encode
    ++ ifSome "style" layer.style Style.encode
    ++ encodeContent layer.content

/-! ## Decoding -/

variable [Rounding]

omit [Rounding] in
/-- A text with something in it that is not blank. -/
def filledText : Decoder String := Decoder.text.such fun s ↦ !isAllBlank s

/-- A quantity above zero. -/
def positive : Decoder Quantity := Decoder.quantity.such Style.isPositive

/-- A quantity that is zero or above. -/
def nonnegative : Decoder Quantity := Decoder.quantity.such Style.isNonnegative

omit [Rounding] in
/-- A whole number above zero. -/
def positiveWhole : Decoder Int := Decoder.whole.such fun n ↦ 0 < n

/-- The later of zero and a start. -/
def clampStart (x : Quantity) : Quantity := Quantity.max (.finite 0) x

/-- The start of a layer: finite, and moved to zero if it lies before. -/
def decodeStart : Decoder Quantity := fun value ↦
  (Decoder.quantity.such Quantity.isFinite value).map clampStart

/-- The length of a layer: finite and not below zero. -/
def decodeLength : Decoder Quantity :=
  Decoder.quantity.such fun x ↦ x.isFinite && !x.lt (.finite 0)

/-- The parts of a layer that have documents of their own. -/
structure Parts where
  position : Checked (Option Position)
  style : Checked (Option Style)
  animation : Checked (Option Animation)

/-- The parts as they are written in the document of a layer, the animation under a given name. -/
def Parts.written (document : Json) (animationName : String) : Parts where
  position := Decoder.optField "position" Position.decode document
  style := Decoder.optField "style" Style.decode document
  animation := Decoder.optField animationName Animation.decode document

/-- The file and the part of it that is used. -/
def decodeSource (document : Json) : Checked Source :=
  Source.mk
    <$> Decoder.needed "source" filledText document
    <*> Decoder.optField "trimStart" nonnegative document
    <*> Decoder.optField "trimEnd" nonnegative document

/-- A slow zoom from a document. -/
def decodePanZoom : Decoder PanZoom := Decoder.object fun document ↦
  let zoom (name : String) (default : Quantity) :=
    Decoder.field name default (Decoder.quantity.such fun x ↦ Quantity.le (.finite 1) x) document
  let focus (name : String) :=
    Decoder.field name (.finite (1 / 2)) (Decoder.quantity.such Style.isShare) document
  PanZoom.mk
    <$> zoom "startZoom" (.finite 1) <*> zoom "endZoom" (binary64 (12 / 10))
    <*> focus "focusX" <*> focus "focusY"

omit [Rounding] in
/-- The value of a parameter: a truth value, a number or a text, each as it is. -/
def decodeParam : Decoder ParamValue
  | .bool b => .ok (.flag b)
  | .num n => .ok (.num n)
  | .str s => .ok (.text s)
  | _ => .reject

omit [Rounding] in
/-- Parameters by their keys. -/
def decodeParams : Decoder (List (String × ParamValue))
  | .obj members => members.foldr
      (fun (key, value) rest ↦
        List.cons <$> ((decodeParam value).within key).map (Prod.mk key) <*> rest) (.ok [])
  | _ => .reject

/-- The content of a video layer. -/
def decodeVideo (document : Json) (parts : Parts) : Checked Content :=
  Content.video <$> (Video.mk
    <$> decodeSource document
    <*> Decoder.field "volume" (.finite 1) nonnegative document
    <*> Decoder.field "audio" true Decoder.flag document
    <*> Decoder.field "fit" .contain (Decoder.name Fit.ofName?) document
    <*> Decoder.optField "width" positiveWhole document
    <*> Decoder.optField "height" positiveWhole document
    <*> Decoder.optField "scale"
      (Decoder.quantity.such fun x ↦ Style.isPositive x && x.le (.finite 1)) document
    <*> Decoder.field "borderWidth" 0 (Decoder.whole.such fun n ↦ 0 ≤ n) document
    <*> Decoder.field "borderColor" "white" Decoder.text document
    <*> parts.animation)

/-- The content of an audio layer. -/
def decodeAudio (document : Json) : Checked Content :=
  Content.audio <$> (Audio.mk
    <$> decodeSource document
    <*> Decoder.field "volume" (.finite 1) nonnegative document
    <*> Decoder.optField "fadeIn" positive document
    <*> Decoder.optField "fadeOut" positive document
    <*> Decoder.optField "tempo" positive document
    <*> Decoder.optField "lowpass" positive document
    <*> Decoder.optField "highpass" positive document
    <*> Decoder.optField "echoDelay" positive document
    <*> Decoder.optField "echoDecay"
      (Decoder.quantity.such fun x ↦ Style.isPositive x && x.le (.finite 1)) document
    <*> Decoder.field "loop" false Decoder.flag document)

/-- The content of an image layer. -/
def decodeImage (document : Json) (parts : Parts) : Checked Content :=
  Content.image <$> (Image.mk
    <$> decodeSource document
    <*> Decoder.optField "width" positiveWhole document
    <*> Decoder.optField "height" positiveWhole document
    <*> Decoder.optField "panZoom" decodePanZoom document
    <*> parts.animation)

omit [Rounding] in
/-- The content of a text layer. -/
def decodeText (document : Json) (parts : Parts) : Checked Content :=
  Content.text <$> Decoder.field "text" "" Decoder.text document <*> parts.animation

/-- The content of a caption layer. -/
def decodeCaption (document : Json) (parts : Parts) : Checked Content :=
  Content.caption <$> (Caption.mk
    <$> Decoder.field "text" "" Decoder.text document
    <*> parts.animation
    <*> Decoder.optField "trackStyle" Style.decode document
    <*> Decoder.optField "language" Decoder.text document)

omit [Rounding] in
/-- The content of a filter layer. -/
def decodeEffect (document : Json) : Checked Content :=
  Content.filter <$> (Effect.mk
    <$> Decoder.needed "name" filledText document
    <*> Decoder.field "params" [] decodeParams document)

/-- A layer from its content and the fields that every kind has. -/
def assemble (document : Json) (parts : Parts) (content : Checked Content) : Checked Layer :=
  Layer.mk
    <$> Decoder.field "startTime" (.finite 0) decodeStart document
    <*> Decoder.optField "duration" decodeLength document
    <*> parts.position <*> parts.style <*> content

/-- The kinds of content by their names. -/
inductive Kind where
  | video
  | audio
  | image
  | text
  | caption
  | filter
  deriving DecidableEq, Repr

namespace Kind

omit [Rounding] in
/-- The kind of a name. -/
def ofName? : String → Option Kind
  | "video" => some video
  | "audio" => some audio
  | "image" => some image
  | "text" => some text
  | "caption" => some caption
  | "filter" => some filter
  | _ => none

omit [Rounding] in
/-- The name of a kind in messages. -/
def title : Kind → String
  | video => "VideoLayer"
  | audio => "AudioLayer"
  | image => "ImageLayer"
  | text => "TextLayer"
  | caption => "CaptionLayer"
  | filter => "FilterLayer"

omit [Rounding] in
/-- The field in which a kind has its animation. -/
def animationField : Kind → String
  | caption => "animation"
  | _ => "transition"

end Kind

/-- The content of a layer of a known kind. -/
def decodeContent (kind : Kind) (document : Json) (parts : Parts) : Checked Content :=
  match kind with
  | .video => decodeVideo document parts
  | .audio => decodeAudio document
  | .image => decodeImage document parts
  | .text => decodeText document parts
  | .caption => decodeCaption document parts
  | .filter => decodeEffect document

/-- A layer of a known kind, with the parts that have documents of their own already decoded. -/
def decodeWith (kind : Kind) (document : Json) (parts : Parts) : Checked Layer :=
  assemble document parts (decodeContent kind document parts)

/-- The kind that a document names. -/
def kindOf? (document : Json) : Option Kind :=
  match document.get? "kind" with
  | some (.str name) => Kind.ofName? name
  | _ => none

/-- A layer from its document.  A document without a known kind fails as a whole. -/
def decode : Decoder Layer := fun document ↦
  match kindOf? document with
  | some kind => decodeWith kind document (Parts.written document kind.animationField)
  | none => .reject

/-! ## Making layers

Builders make a layer from the fields they were given and from the parts that have documents of
their own.  A position is settled before a style, and both before the other fields, so the first
of them that fails is the one that is reported; the other fields are then reported together. -/

/-- The position that a caller gave; null gives none. -/
def givenPosition : Json → Except Error (Option Position)
  | .null => .ok none
  | value => (Position.coerce value).map some

/-- The animation that a caller gave, with the length of one that is given by its name. -/
def givenAnimation (value duration : Json) : Except Error (Option Animation) :=
  constructing .animation Error.isBadValue (Animation.coerce value duration)

/-- A layer from its fields and parts. -/
def make (kind : Kind) (fields : List (String × Json)) (position : Except Error (Option Position))
    (style : Except Error (Option Style)) (animation : Option Animation) : Except Error Layer :=
  constructing (.layer kind.title) (fun cause ↦ cause.isBadValue || cause.isBadKind) do
    let position ← position
    let style ← style
    (decodeWith kind (.obj fields) ⟨.ok position, .ok style, .ok animation⟩).toExcept

end Layer
end Montage
