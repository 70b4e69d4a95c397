import Montage.Layer.Document
import Montage.Proofs.Animation.Valid
import Montage.Proofs.Number.Sign
import Montage.Proofs.Position.Settled
import Montage.Proofs.Style.Valid

/-!
# Valid layers

A layer is valid if each of its fields obeys the rule of that field in a document.  A layer comes
from a document, or from a builder that shares the rules of documents, and so it is valid when it
is made; moving a layer is the only change to it afterwards, and the start is the only field that
this touches.

A valid start is not below zero and is not the negative zero, but it may be infinite: a layer that
is moved too far leaves the grid.
-/

set_option autoImplicit false

namespace Montage

/-! ## Content -/

/-- The path is not blank and the cut is not below zero. -/
structure Source.IsValid (source : Source) : Prop where
  path : isAllBlank source.path = false
  trimStart : ∀ x ∈ source.trimStart, Style.isNonnegative x = true
  trimEnd : ∀ x ∈ source.trimEnd, Style.isNonnegative x = true

/-- A share that is not zero. -/
def isPortion (x : Quantity) : Bool := Style.isPositive x && x.le (.finite 1)

/-- The fields of a video are in their ranges. -/
structure Video.IsValid (video : Video) : Prop where
  source : video.source.IsValid
  volume : Style.isNonnegative video.volume = true
  width : ∀ n ∈ video.width, 0 < n
  height : ∀ n ∈ video.height, 0 < n
  scale : ∀ x ∈ video.scale, isPortion x = true
  borderWidth : 0 ≤ video.borderWidth
  transition : ∀ animation ∈ video.transition, animation.IsValid

/-- The fields of a sound are in their ranges. -/
structure Audio.IsValid (audio : Audio) : Prop where
  source : audio.source.IsValid
  volume : Style.isNonnegative audio.volume = true
  fadeIn : ∀ x ∈ audio.fadeIn, Style.isPositive x = true
  fadeOut : ∀ x ∈ audio.fadeOut, Style.isPositive x = true
  tempo : ∀ x ∈ audio.tempo, Style.isPositive x = true
  lowpass : ∀ x ∈ audio.lowpass, Style.isPositive x = true
  highpass : ∀ x ∈ audio.highpass, Style.isPositive x = true
  echoDelay : ∀ x ∈ audio.echoDelay, Style.isPositive x = true
  echoDecay : ∀ x ∈ audio.echoDecay, isPortion x = true

/-- A zoom does not shrink, and its focus lies in the picture. -/
structure PanZoom.IsValid (zoom : PanZoom) : Prop where
  startZoom : Quantity.le (.finite 1) zoom.startZoom = true
  endZoom : Quantity.le (.finite 1) zoom.endZoom = true
  focusX : Style.isShare zoom.focusX = true
  focusY : Style.isShare zoom.focusY = true

/-- The fields of a picture are in their ranges. -/
structure Image.IsValid (image : Image) : Prop where
  source : image.source.IsValid
  width : ∀ n ∈ image.width, 0 < n
  height : ∀ n ∈ image.height, 0 < n
  panZoom : ∀ zoom ∈ image.panZoom, zoom.IsValid
  transition : ∀ animation ∈ image.transition, animation.IsValid

/-- The parts of a caption are valid. -/
structure Caption.IsValid (caption : Caption) : Prop where
  animation : ∀ animation ∈ caption.animation, animation.IsValid
  trackStyle : ∀ style ∈ caption.trackStyle, style.IsValid

/-- The fields of the content are in their ranges; nothing is asked of the parameters of a
filter. -/
def Content.IsValid : Content → Prop
  | .video v => v.IsValid
  | .audio a => a.IsValid
  | .image i => i.IsValid
  | .text _ transition => ∀ animation ∈ transition, animation.IsValid
  | .caption c => c.IsValid
  | .filter effect => isAllBlank effect.name = false

/-! ## Layers -/

namespace Layer

/-- A start that a layer may have: not below zero, and a zero without a sign. -/
structure IsStart (x : Quantity) : Prop where
  nonnegative : Style.isNonnegative x = true
  unsigned : x ≠ .negativeZero

/-- A length that a layer may have. -/
def isLength (x : Quantity) : Bool := x.isFinite && !x.lt (.finite 0)

/-- Each field obeys the rule that documents have for it. -/
structure IsValid (layer : Layer) : Prop where
  startTime : IsStart layer.startTime
  duration : ∀ x ∈ layer.duration, isLength x = true
  position : ∀ position ∈ layer.position, position.IsValid
  style : ∀ style ∈ layer.style, style.IsValid
  content : layer.content.IsValid

theorem isStart_clampStart (x : Quantity) : IsStart (clampStart x) := by
  rw [clampStart, Quantity.max]
  split
  · rename_i hlt
    refine ⟨Quantity.le_of_lt hlt, ?_⟩
    rintro rfl
    exact absurd hlt (by decide)
  · exact ⟨by decide, by rintro ⟨⟩⟩

/-- What may stand as a start is not moved. -/
theorem clampStart_of_isStart {x : Quantity} (h : IsStart x) : clampStart x = x := by
  obtain ⟨hle, hne⟩ := h
  rw [clampStart, Quantity.max]
  split
  · rfl
  · rename_i hlt
    obtain ⟨q, hq, rfl⟩ | rfl | rfl := Quantity.le_zero_iff.mp hle
    · rcases hq.eq_or_lt with rfl | hq
      · rfl
      · exact absurd (Quantity.lt_zero_iff.mpr (.inl ⟨q, hq, rfl⟩)) hlt
    · exact absurd rfl hne
    · exact absurd (Quantity.lt_zero_iff.mpr (.inr rfl)) hlt

/-! ## Making layers -/

variable [Rounding]

/-- The parts that a layer is given are valid, if they could be made. -/
structure Parts.IsValid (parts : Parts) : Prop where
  position : parts.position.All fun o ↦ ∀ position ∈ o, position.IsValid
  style : parts.style.All fun o ↦ ∀ style ∈ o, style.IsValid
  animation : parts.animation.All fun o ↦ ∀ animation ∈ o, animation.IsValid

omit [Rounding] in
theorem filledText_isFilled (value : Json) :
    (filledText value).All fun s ↦ isAllBlank s = false := by
  intro s h
  have hfilled : (!isAllBlank s) = true := Decoder.all_such s h
  simpa using hfilled

omit [Rounding] in
theorem positiveWhole_pos (value : Json) : (positiveWhole value).All fun n ↦ 0 < n :=
  fun n h ↦ of_decide_eq_true (Decoder.all_such n h)

theorem decodeSource_isValid (document : Json) : (decodeSource document).All Source.IsValid := by
  simp only [decodeSource, Checked.all_seq, Checked.all_map]
  intro _ hpath _ hstart _ hstop
  exact ⟨Decoder.all_needed filledText_isFilled _ hpath, Decoder.all_suchOptField _ hstart,
    Decoder.all_suchOptField _ hstop⟩

theorem decodePanZoom_isValid (document : Json) : (decodePanZoom document).All PanZoom.IsValid := by
  refine Decoder.all_object ?_
  simp only [Checked.all_seq, Checked.all_map]
  intro _ hstart _ hend _ hx _ hy
  exact ⟨Decoder.all_suchField (by decide) _ hstart,
    Decoder.all_suchField (by decide +kernel) _ hend,
    Decoder.all_suchField (by decide +kernel) _ hx,
    Decoder.all_suchField (by decide +kernel) _ hy⟩

variable {document : Json} {parts : Parts}

theorem decodeVideo_isValid (valid : parts.IsValid) :
    (decodeVideo document parts).All Content.IsValid := by
  simp only [decodeVideo, Checked.all_seq, Checked.all_map]
  intro _ hsource _ hvolume _ _ _ _ _ hwidth _ hheight _ hscale _ hborder _ _ _ htransition
  exact ⟨decodeSource_isValid _ _ hsource, Decoder.all_suchField (by decide) _ hvolume,
    Decoder.all_optField positiveWhole_pos _ hwidth,
    Decoder.all_optField positiveWhole_pos _ hheight, Decoder.all_suchOptField _ hscale,
    Decoder.all_field le_rfl (fun _ n h ↦ of_decide_eq_true (Decoder.all_such n h)) _ hborder,
    valid.animation _ htransition⟩

theorem decodeAudio_isValid : (decodeAudio document).All Content.IsValid := by
  simp only [decodeAudio, Checked.all_seq, Checked.all_map]
  intro _ hsource _ hvolume _ hin _ hout _ htempo _ hlow _ hhigh _ hdelay _ hdecay _ _
  exact ⟨decodeSource_isValid _ _ hsource, Decoder.all_suchField (by decide) _ hvolume,
    Decoder.all_suchOptField _ hin, Decoder.all_suchOptField _ hout,
    Decoder.all_suchOptField _ htempo, Decoder.all_suchOptField _ hlow,
    Decoder.all_suchOptField _ hhigh, Decoder.all_suchOptField _ hdelay,
    Decoder.all_suchOptField _ hdecay⟩

theorem decodeImage_isValid (valid : parts.IsValid) :
    (decodeImage document parts).All Content.IsValid := by
  simp only [decodeImage, Checked.all_seq, Checked.all_map]
  intro _ hsource _ hwidth _ hheight _ hzoom _ htransition
  exact ⟨decodeSource_isValid _ _ hsource, Decoder.all_optField positiveWhole_pos _ hwidth,
    Decoder.all_optField positiveWhole_pos _ hheight,
    Decoder.all_optField decodePanZoom_isValid _ hzoom, valid.animation _ htransition⟩

omit [Rounding] in
theorem decodeText_isValid (valid : parts.IsValid) :
    (decodeText document parts).All Content.IsValid := by
  simp only [decodeText, Checked.all_seq, Checked.all_map]
  intro _ _
  exact valid.animation

theorem decodeCaption_isValid (valid : parts.IsValid) :
    (decodeCaption document parts).All Content.IsValid := by
  simp only [decodeCaption, Checked.all_seq, Checked.all_map]
  intro _ _ _ hanimation _ hstyle _ _
  exact ⟨valid.animation _ hanimation, Decoder.all_optField Style.decode_isValid _ hstyle⟩

omit [Rounding] in
theorem decodeEffect_isValid : (decodeEffect document).All Content.IsValid := by
  simp only [decodeEffect, Checked.all_seq, Checked.all_map]
  intro _ hname _ _
  exact Decoder.all_needed filledText_isFilled _ hname

theorem decodeStart_isStart (value : Json) : (decodeStart value).All IsStart :=
  Checked.all_map.mpr fun x _ ↦ isStart_clampStart x

theorem decodeContent_isValid (kind : Kind) (valid : parts.IsValid) :
    (decodeContent kind document parts).All Content.IsValid := by
  cases kind with
  | video => exact decodeVideo_isValid valid
  | audio => exact decodeAudio_isValid
  | image => exact decodeImage_isValid valid
  | text => exact decodeText_isValid valid
  | caption => exact decodeCaption_isValid valid
  | filter => exact decodeEffect_isValid

/-- **A layer is valid when it is made**, from a document or by a builder. -/
theorem decodeWith_isValid (kind : Kind) (valid : parts.IsValid) :
    (decodeWith kind document parts).All IsValid := by
  simp only [decodeWith, assemble, Checked.all_seq, Checked.all_map]
  intro _ hstart _ hduration _ hposition _ hstyle content hmade
  exact ⟨Decoder.all_field ⟨by decide, by rintro ⟨⟩⟩ decodeStart_isStart _ hstart,
    Decoder.all_suchOptField _ hduration, valid.position _ hposition, valid.style _ hstyle,
    decodeContent_isValid kind valid content hmade⟩

theorem written_isValid (document : Json) (animationName : String) :
    (Parts.written document animationName).IsValid :=
  ⟨Decoder.all_optField Position.decode_isValid, Decoder.all_optField Style.decode_isValid,
    Decoder.all_optField Animation.decode_isValid⟩

theorem decode_isValid (document : Json) : (decode document).All IsValid := by
  rw [decode]
  split
  · exact decodeWith_isValid _ (written_isValid _ _)
  · rintro _ ⟨⟩

theorem givenPosition_isValid {value : Json} {position : Option Position}
    (h : givenPosition value = .ok position) : ∀ given ∈ position, given.IsValid := by
  unfold givenPosition at h
  split at h
  · cases h
    rintro _ ⟨⟩
  · obtain ⟨made, hmade, rfl⟩ := map_eq_ok.mp h
    rintro _ ⟨⟩
    exact Position.coerce_isValid hmade

theorem givenAnimation_isValid {value duration : Json} {animation : Option Animation}
    (h : givenAnimation value duration = .ok animation) : ∀ given ∈ animation, given.IsValid :=
  Animation.coerce_isValid (constructing_eq_ok.mp h)

theorem make_isValid {kind : Kind} {fields : List (String × Json)}
    {position : Except Error (Option Position)} {style : Except Error (Option Style)}
    {animation : Option Animation} {layer : Layer}
    (hposition : ∀ o, position = .ok o → ∀ given ∈ o, given.IsValid)
    (hstyle : ∀ o, style = .ok o → ∀ given ∈ o, given.IsValid)
    (hanimation : ∀ given ∈ animation, given.IsValid)
    (h : make kind fields position style animation = .ok layer) : layer.IsValid := by
  obtain ⟨place, hplace, h⟩ := bind_eq_ok.mp (constructing_eq_ok.mp h)
  obtain ⟨look, hlook, h⟩ := bind_eq_ok.mp h
  refine decodeWith_isValid kind ⟨?_, ?_, ?_⟩ layer (Checked.toExcept_eq_ok.mp h)
  · rintro _ ⟨⟩
    exact hposition place hplace
  · rintro _ ⟨⟩
    exact hstyle look hlook
  · rintro _ ⟨⟩
    exact hanimation

/-- A layer that is made without position, style and animation is valid. -/
theorem makeBare_isValid {kind : Kind} {fields : List (String × Json)} {layer : Layer}
    (h : make kind fields (.ok none) (.ok none) none = .ok layer) : layer.IsValid := by
  refine make_isValid ?_ ?_ ?_ h
  · rintro _ ⟨⟩ _ ⟨⟩
  · rintro _ ⟨⟩ _ ⟨⟩
  · rintro _ ⟨⟩

/-- A layer that is made with a place and a look is valid if these are. -/
theorem makePlaced_isValid {kind : Kind} {fields : List (String × Json)} {position : Position}
    {style : Style} {animation : Option Animation} {layer : Layer}
    (hposition : position.IsValid) (hstyle : style.IsValid)
    (hanimation : ∀ given ∈ animation, given.IsValid)
    (h : make kind fields (.ok (some position)) (.ok (some style)) animation = .ok layer) :
    layer.IsValid := by
  refine make_isValid ?_ ?_ hanimation h
  · rintro _ ⟨⟩ _ ⟨⟩
    exact hposition
  · rintro _ ⟨⟩ _ ⟨⟩
    exact hstyle

/-! ## Moving layers -/

omit [Rounding] in
/-- A layer that is moved to a later time is valid. -/
theorem IsValid.shifted [rounding : Rounding] (signs : rounding.KeepsSigns) {layer : Layer}
    (valid : layer.IsValid) {offset : Quantity} (hoffset : Style.isNonnegative offset = true) :
    (layer.shifted offset).IsValid := by
  obtain ⟨hnonnegative, hunsigned⟩ :=
    Quantity.add_nonnegative signs valid.startTime.nonnegative valid.startTime.unsigned hoffset
  exact ⟨⟨hnonnegative, hunsigned⟩, valid.duration, valid.position, valid.style, valid.content⟩

end Layer
end Montage
