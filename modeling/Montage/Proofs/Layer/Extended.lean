import Montage.Document.Request
import Montage.Layer.Document
import Montage.Proofs.Document.Extended

/-!
# Layers with more in their documents

A layer is read from the fields of its kind and from the parts that have documents of their own.
There may be more in its document, and in those of its parts, than is known of them
(`Layer.knownOf`): the layer that is read is the same (`Layer.decode_of_extends`).

What is known depends on the kind.  A field of another kind is as unknown as any other key; that an
animation is read for every kind does no harm, as the kinds without one do not look at it.
-/

set_option autoImplicit false

namespace Montage

/-! ## Parts of a layer -/

/-- What is known of a style. -/
def Style.known : Known where
  plain := ["fontSize", "fontFamily", "fontFile", "fontWeight", "fontStyle", "textDecoration",
    "color", "strokeColor", "strokeWidth", "backgroundColor", "backgroundPadding", "shadowColor",
    "shadowX", "shadowY", "opacity", "scale", "rotation", "lineSpacing", "textAlign"]

/-- What is known of a position. -/
def Position.known : Known where
  plain := ["x", "y", "anchor", "dx", "dy"]

/-- What is known of an animation. -/
def Animation.known : Known where
  plain := ["type", "duration", "delay", "direction", "intensity", "color"]

/-- What is known of a slow zoom. -/
def PanZoom.known : Known where
  plain := ["startZoom", "endZoom", "focusX", "focusY"]

variable [Rounding] {a b : Json}

theorem Style.decode_of_extends (h : Extends Style.known a b) : decode a = decode b :=
  h.object_eq fun h ↦ by simp (disch := decide) only [h.optField_plain]

theorem Position.decode_of_extends (h : Extends Position.known a b) : decode a = decode b :=
  h.object_eq fun h ↦ by simp (disch := decide) only [h.field_plain, h.optField_plain]

theorem Animation.decode_of_extends (h : Extends Animation.known a b) : decode a = decode b :=
  h.object_eq fun h ↦ by
    simp (disch := decide) only [h.needed_plain, h.field_plain, h.optField_plain]

namespace Layer

theorem decodePanZoom_of_extends (h : Extends PanZoom.known a b) :
    decodePanZoom a = decodePanZoom b :=
  h.object_eq fun h ↦ by simp (disch := decide) only [h.field_plain]

/-! ## What is known of a layer -/

/-- What is known of every layer. -/
def knownAlways : Known where
  plain := ["kind", "startTime", "duration"]
  parts := [("position", Extends Position.known), ("style", Extends Style.known)]

/-- What is known of a file and the part of it that is used. -/
def knownSource : Known where
  plain := ["source", "trimStart", "trimEnd"]

/-- What is known of the animation of a kind. -/
def knownAnimation (kind : Kind) : Known where
  plain := []
  parts := [(kind.animationField, Extends Animation.known)]

/-- What is known of the content of a kind. -/
def knownContent : Kind → Known
  | .video => knownSource.append <| (knownAnimation .video).append {
      plain := ["volume", "audio", "fit", "width", "height", "scale", "borderWidth",
        "borderColor"] }
  | .audio => knownSource.append {
      plain := ["volume", "fadeIn", "fadeOut", "tempo", "lowpass", "highpass", "echoDelay",
        "echoDecay", "loop"] }
  | .image => knownSource.append <| (knownAnimation .image).append {
      plain := ["width", "height"], parts := [("panZoom", Extends PanZoom.known)] }
  | .text => (knownAnimation .text).append { plain := ["text"] }
  | .caption => (knownAnimation .caption).append {
      plain := ["text", "language"], parts := [("trackStyle", Extends Style.known)] }
  | .filter => { plain := ["name", "params"] }

/-- What is known of a layer of a kind. -/
def known (kind : Kind) : Known := knownAlways.append (knownContent kind)

/-- What is known of the document of a layer: if it is of no known kind, then that it is not. -/
def knownOf (document : Json) : Known :=
  match kindOf? document with
  | some kind => known kind
  | none => { plain := ["kind"] }

/-! ## Reading layers -/

section

variable {kind : Kind} {members more : List (String × Json)}

/-- The animation is known for the kinds that look at it. -/
theorem animation_of_extends (h : MembersExtend (known kind) members more)
    (haudio : kind ≠ .audio) (hfilter : kind ≠ .filter) :
    (Parts.written (.obj members) kind.animationField).animation =
      (Parts.written (.obj more) kind.animationField).animation := by
  refine h.optField_part _ Animation.decode_of_extends ?_
  cases kind <;> first
    | simp [known, knownAlways, knownContent, knownAnimation, knownSource, Known.append]; done
    | contradiction

theorem decodeContent_of_extends (h : MembersExtend (known kind) members more) :
    decodeContent kind (.obj members) (Parts.written (.obj members) kind.animationField) =
      decodeContent kind (.obj more) (Parts.written (.obj more) kind.animationField) := by
  cases kind with
  | video =>
    -- that a name is among those that are known is decided where it is used
    have hanimation := animation_of_extends h (by decide) (by decide)
    simp (disch := decide) only [decodeContent, decodeVideo, decodeSource, hanimation,
      h.needed_plain, h.field_plain, h.optField_plain]
  | audio =>
    simp (disch := decide) only [decodeContent, decodeAudio, decodeSource, h.needed_plain,
      h.field_plain, h.optField_plain]
  | image =>
    have hanimation := animation_of_extends h (by decide) (by decide)
    have hzoom := h.optField_part "panZoom" decodePanZoom_of_extends
      (by simp [known, knownAlways, knownContent, knownAnimation, knownSource, Known.append])
    simp (disch := decide) only [decodeContent, decodeImage, decodeSource, hanimation, hzoom,
      h.needed_plain, h.optField_plain]
  | text =>
    have hanimation := animation_of_extends h (by decide) (by decide)
    simp (disch := decide) only [decodeContent, decodeText, hanimation, h.field_plain]
  | caption =>
    have hanimation := animation_of_extends h (by decide) (by decide)
    have hstyle := h.optField_part "trackStyle" Style.decode_of_extends
      (by simp [known, knownAlways, knownContent, knownAnimation, Known.append])
    simp (disch := decide) only [decodeContent, decodeCaption, hanimation, hstyle, h.field_plain,
      h.optField_plain]
  | filter =>
    simp (disch := decide) only [decodeContent, decodeEffect, h.needed_plain, h.field_plain]

theorem decodeWith_of_extends (h : MembersExtend (known kind) members more) :
    decodeWith kind (.obj members) (Parts.written (.obj members) kind.animationField) =
      decodeWith kind (.obj more) (Parts.written (.obj more) kind.animationField) := by
  have hplain {name : String} (hname : name ∈ knownAlways.plain) : name ∈ (known kind).plain :=
    List.mem_append_left _ hname
  have hposition : (Parts.written (.obj members) kind.animationField).position =
      (Parts.written (.obj more) kind.animationField).position :=
    h.optField_part "position" Position.decode_of_extends
      (List.mem_append_left _ List.mem_cons_self)
  have hstyle : (Parts.written (.obj members) kind.animationField).style =
      (Parts.written (.obj more) kind.animationField).style :=
    h.optField_part "style" Style.decode_of_extends
      (List.mem_append_left _ (List.mem_cons_of_mem _ List.mem_cons_self))
  rw [decodeWith, decodeWith, assemble, assemble, decodeContent_of_extends h, hposition, hstyle,
    h.field_plain _ _ (hplain (by decide)), h.optField_plain _ (hplain (by decide))]

end

omit [Rounding] in
theorem kind_mem_knownOf (document : Json) : "kind" ∈ (knownOf document).plain := by
  rw [knownOf]
  split
  · exact List.mem_append_left _ List.mem_cons_self
  · exact List.mem_cons_self

omit [Rounding] in
/-- A document and an extended one say the same about their kind. -/
theorem member?_kind_of_extends (h : Extends (knownOf a) a b) :
    (a.member? "kind" : Except Error (Option Json)) = b.member? "kind" := by
  have hmem := kind_mem_knownOf a
  cases h with
  | same value => rfl
  | object h => exact congrArg Except.ok (h.lookup?_plain hmem List.mem_cons_self)

omit [Rounding] in
theorem kindOf?_of_extends (h : Extends (knownOf a) a b) : kindOf? a = kindOf? b := by
  have hmem := kind_mem_knownOf a
  cases h with
  | same value => rfl
  | object h =>
    rw [kindOf?, kindOf?]
    dsimp only [Json.get?]
    rw [h.lookup?_plain hmem List.mem_cons_self]

/-- **A layer is read from an extended document as from its own**, and refused for the same
fields. -/
theorem decode_of_extends (h : Extends (knownOf a) a b) : decode a = decode b := by
  have hkind := kindOf?_of_extends h
  rw [decode, decode, ← hkind]
  cases hfound : kindOf? a with
  | none => rfl
  | some kind =>
    rw [knownOf, hfound] at h
    cases h with
    | same value => rfl
    | object h => exact decodeWith_of_extends h

end Layer
end Montage
