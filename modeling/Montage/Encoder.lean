import Montage.Document.Request
import Montage.Timeline.Options

/-!
# Encoders

A profile says which codec the output is written with, how strongly it is compressed and how its
sound is encoded; it becomes the last arguments of a command.
-/

set_option autoImplicit false

namespace Montage

/-- The codecs of a picture. -/
inductive Codec where
  | h264
  | h265
  | vp9
  deriving DecidableEq, Repr

namespace Codec

/-- The name of a codec in documents. -/
def name : Codec → String
  | h264 => "h264"
  | h265 => "h265"
  | vp9 => "vp9"

/-- The codec of a name. -/
def ofName? (s : String) : Option Codec := [h264, h265, vp9].find? fun codec ↦ codec.name == s

/-- The program that encodes pictures. -/
def encoder : Codec → String
  | h264 => "libx264"
  | h265 => "libx265"
  | vp9 => "libvpx-vp9"

/-- The rate factor where none is given. -/
def defaultRate : Codec → Int
  | h264 => 23
  | h265 => 28
  | vp9 => 32

/-- Whether the encoder knows speed presets. -/
def hasPresets : Codec → Bool
  | vp9 => false
  | _ => true

/-- Arguments that the codec always needs: a pixel format that plays everywhere, the tag by which
players know it, or the mode of constant quality. -/
def extraArgs : Codec → List String
  | h264 => ["-pix_fmt", "yuv420p"]
  | h265 => ["-pix_fmt", "yuv420p", "-tag:v", "hvc1"]
  | vp9 => ["-b:v", "0"]

/-- The program that encodes the sound that goes with the codec. -/
def audioEncoder : Codec → String
  | vp9 => "libopus"
  | _ => "aac"

end Codec

/-- How the output is encoded. -/
structure EncoderProfile where
  codec : Codec
  rate : Option Int := none
  preset : Option String := none
  audioCodec : Option String := some "aac"
  deriving DecidableEq, Repr

namespace EncoderProfile

/-- A profile from its document. -/
def decode : Decoder EncoderProfile := Decoder.object fun document ↦
  EncoderProfile.mk
    <$> Decoder.plainNeeded "kind" (Decoder.name Codec.ofName?) document
    <*> Decoder.plainField "crf" none (Decoder.optional Decoder.whole) document
    <*> Decoder.plainField "preset" none (Decoder.optional Decoder.text) document
    <*> Decoder.plainField "audioCodec" (some "aac") (Decoder.optional Decoder.text) document

/-- A profile as a document. -/
def encode (profile : EncoderProfile) : Json := .obj <|
  always "kind" (.str profile.codec.name)
    ++ ifSome "crf" profile.rate .whole
    ++ ifSome "preset" profile.preset .str
    ++ ifSome "audio_codec" profile.audioCodec .str

/-- The rate factor and the speed preset of a quality. -/
def settings : Quality → Int × String
  | .low => (28, "fast")
  | .medium => (23, "medium")
  | .high => (18, "medium")
  | .ultra => (15, "slow")

/-- How much higher the rate factor of VP9 is for the same quality. -/
def vp9RateOffset : Int := 10

/-- The document of a profile for a quality and possibly a codec. -/
def qualityDocument (quality : Quality) (codec : Json) : Json :=
  let (rate, preset) := settings quality
  let kind := if codec.isTruthy then codec else .str "h264"
  match kind with
  | .str "vp9" =>
    .obj [("kind", kind), ("crf", .whole (rate + vp9RateOffset)),
      ("audio_codec", .str Codec.vp9.audioEncoder)]
  | _ => .obj [("kind", kind), ("crf", .whole rate), ("preset", .str preset)]

/-- The profile for a quality and possibly a codec. -/
def ofQuality (quality : Quality) (codec : Json) : Except Error EncoderProfile :=
  (decode (qualityDocument quality codec)).toExcept

/-- A profile for a codec with speed presets, from a request with a rate factor and a preset. -/
def withPreset (codec : Codec) (given : List (String × Json)) : Except Error EncoderProfile := do
  let request ← Request.complete
    [.default "crf" (.whole codec.defaultRate), .default "preset" (.str "medium")] given
  (decode (.obj (("kind", .str codec.name) :: request.members))).toExcept

/-- A profile for H.264, from a request with a rate factor and a speed preset. -/
def h264 (given : List (String × Json)) : Except Error EncoderProfile := withPreset .h264 given

/-- A profile for H.265, from a request with a rate factor and a speed preset. -/
def h265 (given : List (String × Json)) : Except Error EncoderProfile := withPreset .h265 given

/-- A profile for VP9, from a request with a rate factor. -/
def vp9 (given : List (String × Json)) : Except Error EncoderProfile := do
  let request ← Request.complete [.default "crf" (.whole Codec.vp9.defaultRate)] given
  (decode (.obj [("kind", .str Codec.vp9.name), ("crf", request.get "crf"),
    ("audio_codec", .str Codec.vp9.audioEncoder)])).toExcept

/-- The profile for a request with a quality and a codec. -/
def ofRequest (given : List (String × Json)) : Except Error EncoderProfile := do
  let request ← Request.complete [.default "quality" (.str "medium"), .absent "codec"] given
  match request.get "quality" with
  | .str name =>
    match Quality.ofName? name with
    | some quality => ofQuality quality (request.get "codec")
    | none => throw .badValue
  | _ => throw .badValue

/-- The last arguments of a command before the path of the output: codec, rate and sound. -/
def args (profile : EncoderProfile) (hasAudio : Bool) : List String :=
  let rate := profile.rate.getD profile.codec.defaultRate
  let preset := match profile.preset with
    | some preset => if preset.isEmpty then "medium" else preset
    | none => "medium"
  let sound := match profile.audioCodec with
    | some codec => if hasAudio && !codec.isEmpty then ["-c:a", codec] else []
    | none => []
  ["-c:v", profile.codec.encoder, "-crf", toString rate]
    ++ (if profile.codec.hasPresets then ["-preset", preset] else [])
    ++ profile.codec.extraArgs ++ sound

end EncoderProfile
end Montage
