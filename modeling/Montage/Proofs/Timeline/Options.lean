import Montage.Proofs.Style.Valid
import Montage.Timeline.Options

/-!
# Valid options

Options are valid if each of them obeys the rule of its field.  A document of changes keeps valid
options valid, since a field that it does not write keeps its value, and the document of valid
options is read as the same options.
-/

set_option autoImplicit false

namespace Montage

theorem Quality.ofName?_name (quality : Quality) :
    Quality.ofName? quality.name = some quality := by
  cases quality <;> decide

/-- The times of a cut are not below zero. -/
structure TrimRange.IsValid (trim : TrimRange) : Prop where
  start : Style.isNonnegative trim.start = true
  stop : ∀ x ∈ trim.stop, Style.isNonnegative x = true

/-- A rectangle with something in it, that does not begin outside of the canvas. -/
structure CropBox.IsValid (crop : CropBox) : Prop where
  width : 0 < crop.width
  height : 0 < crop.height
  x : 0 ≤ crop.x
  y : 0 ≤ crop.y

namespace RenderOptions

/-- A frame rate is above zero and finite. -/
def isRate (x : Quantity) : Bool := Style.isPositive x && x.isFinite

/-- A length of the output is not below zero and finite. -/
def isSpan (x : Quantity) : Bool := Style.isNonnegative x && x.isFinite

/-- Each option obeys the rule that documents have for it. -/
structure IsValid (options : RenderOptions) : Prop where
  aspectRatio : ∀ s ∈ options.aspectRatio, (ratioSides? s).isSome = true
  width : ∀ n ∈ options.width, 0 < n
  height : ∀ n ∈ options.height, 0 < n
  fps : isRate options.fps = true
  codec : ∀ s ∈ options.codec, ["h264", "h265", "vp9"].contains s = true
  duration : ∀ x ∈ options.duration, isSpan x = true
  trim : ∀ trim ∈ options.trim, trim.IsValid
  crop : ∀ crop ∈ options.crop, crop.IsValid
  defaultStyle : ∀ style ∈ options.defaultStyle, style.IsValid

theorem isValid_usual : IsValid {} := by
  constructor
  case fps => decide
  all_goals rintro _ ⟨⟩

variable [Rounding]

theorem decodeTrim_isValid (document : Json) : (decodeTrim document).All TrimRange.IsValid := by
  refine Decoder.all_object ?_
  simp only [Checked.all_seq, Checked.all_map]
  intro _ hstart _ hstop
  exact ⟨Decoder.all_suchField (by decide) _ hstart, Decoder.all_suchOptField _ hstop⟩

omit [Rounding] in
theorem decodeCrop_isValid (document : Json) : (decodeCrop document).All CropBox.IsValid := by
  have hpositive (value : Json) : (Decoder.whole.such (fun n ↦ 0 < n) value).All fun n ↦ 0 < n :=
    fun n h ↦ of_decide_eq_true (Decoder.all_such n h)
  have hnonnegative (value : Json) :
      (Decoder.whole.such (fun n ↦ 0 ≤ n) value).All fun n ↦ 0 ≤ n :=
    fun n h ↦ of_decide_eq_true (Decoder.all_such n h)
  refine Decoder.all_object ?_
  simp only [Checked.all_seq, Checked.all_map]
  intro _ hwidth _ hheight _ hx _ hy
  exact ⟨Decoder.all_needed hpositive _ hwidth, Decoder.all_needed hpositive _ hheight,
    Decoder.all_field (Int.le_refl 0) hnonnegative _ hx,
    Decoder.all_field (Int.le_refl 0) hnonnegative _ hy⟩

/-- Changes keep options valid. -/
theorem decodeOver_isValid {base : RenderOptions} (valid : base.IsValid) (document : Json) :
    (decodeOver base document).All IsValid := by
  have hside {side : Option Int} (h : ∀ n ∈ side, 0 < n) (name : String) (document : Json) :
      (Decoder.field name side (Decoder.optional (Decoder.whole.such fun n ↦ 0 < n)) document).All
        fun o ↦ ∀ n ∈ o, 0 < n :=
    Decoder.all_field h fun _ ↦
      Decoder.all_optional fun _ n h ↦ of_decide_eq_true (Decoder.all_such n h)
  refine Decoder.all_object ?_
  simp only [Checked.all_seq, Checked.all_map]
  intro _ hratio _ hwidth _ hheight _ hfps _ _ _ hcodec _ hduration _ htrim _ hcrop _ _ _ _ _ hstyle
  have hrate : isRate _ = true := Decoder.all_suchField valid.fps _ hfps
  exact {
    aspectRatio := Decoder.all_suchKept (by exact valid.aspectRatio) _ hratio
    width := hside valid.width _ _ _ hwidth
    height := hside valid.height _ _ _ hheight
    fps := hrate
    codec := Decoder.all_suchKept (by exact valid.codec) _ hcodec
    duration := Decoder.all_suchKept (by exact valid.duration) _ hduration
    trim := Decoder.all_field valid.trim (fun _ ↦ Decoder.all_optional decodeTrim_isValid) _ htrim
    crop := Decoder.all_field valid.crop (fun _ ↦ Decoder.all_optional decodeCrop_isValid) _ hcrop
    defaultStyle := Decoder.all_field valid.defaultStyle
      (fun _ ↦ Decoder.all_optional Style.decode_isValid) _ hstyle }

theorem decode_isValid (document : Json) : (decode document).All IsValid :=
  decodeOver_isValid isValid_usual document

/-! ## Documents -/

omit [Rounding] in
theorem isRecord_encode (options : RenderOptions) : options.encode.IsRecord := by
  refine .of_camel ?_
  repeat' apply areCamel_append
  all_goals first
    | exact areCamel_always _ (by decide)
    | exact areCamel_ifSome _ _ (by decide)

theorem decodeTrim_encode {trim : TrimRange} (valid : trim.IsValid) :
    decodeTrim (encodeTrim trim) = .ok trim := by
  have hrecord : (encodeTrim trim).IsRecord := by
    refine .of_camel (areCamel_append ?_ ?_)
    · exact areCamel_always _ (by decide)
    · exact areCamel_ifSome _ _ (by decide)
  simp only [decodeTrim, hrecord.object, hrecord.written?, Decoder.optField_eq, Decoder.field]
  simp [encodeTrim, Json.get?, valid.start, Decoder.readIf_such valid.stop]

omit [Rounding] in
theorem decodeCrop_encode {crop : CropBox} (valid : crop.IsValid) :
    decodeCrop (encodeCrop crop) = .ok crop := by
  have hrecord : (encodeCrop crop).IsRecord := by
    refine .of_camel (areCamel_append (areCamel_append (areCamel_append ?_ ?_) ?_) ?_) <;>
      exact areCamel_always _ (by decide)
  simp only [decodeCrop, hrecord.object, hrecord.written?, Decoder.field, Decoder.needed]
  simp [encodeCrop, Json.get?, valid.width, valid.height, valid.x, valid.y]

omit [Rounding] in
theorem decodeScale_encode (scale : ScaleSize) : decodeScale (encodeScale scale) = .ok scale := by
  have hrecord : (encodeScale scale).IsRecord := by
    refine .of_camel (areCamel_append ?_ ?_) <;> exact areCamel_always _ (by decide)
  simp only [decodeScale, hrecord.object, hrecord.written?, Decoder.needed]
  simp [encodeScale, Json.get?]

/-- **Valid options are what their document is read as.** -/
theorem decode_encode {options : RenderOptions} (valid : options.IsValid) :
    decode options.encode = .ok options := by
  have hrecord := options.isRecord_encode
  have hoptional {α : Type} (name : String) (inner : Decoder α) (document : Json) :
      Decoder.field name none (Decoder.optional inner) document =
        Decoder.optField name inner document := rfl
  have hside (name : String) {side : Option Int} (h : ∀ n ∈ side, 0 < n) :
      Decoder.readIf name (Decoder.whole.such fun n ↦ 0 < n) (side.map .whole) = .ok side :=
    Decoder.readIf_such_whole fun n hn ↦ decide_eq_true (h n hn)
  have hfps : Style.isPositive options.fps = true ∧ options.fps.isFinite = true :=
    Bool.and_eq_true_iff.mp valid.fps
  have hduration : Decoder.readIf "duration"
      (Decoder.quantity.such fun x ↦ Style.isNonnegative x && x.isFinite)
      (options.duration.map .quantity) = .ok options.duration :=
    Decoder.readIf_such valid.duration
  have htrim : Decoder.readIf "trim" decodeTrim (options.trim.map encodeTrim) = .ok options.trim :=
    Decoder.readIf_same fun trim h ↦ ⟨by rintro ⟨⟩, decodeTrim_encode (valid.trim trim h)⟩
  have hcrop : Decoder.readIf "crop" decodeCrop (options.crop.map encodeCrop) = .ok options.crop :=
    Decoder.readIf_same fun crop h ↦ ⟨by rintro ⟨⟩, decodeCrop_encode (valid.crop crop h)⟩
  have hscale : Decoder.readIf "scale" decodeScale (options.scale.map encodeScale) =
      .ok options.scale :=
    Decoder.readIf_same fun scale _ ↦ ⟨by rintro ⟨⟩, decodeScale_encode scale⟩
  have hstyle : Decoder.readIf "defaultStyle" Style.decode
      (options.defaultStyle.map Style.encode) = .ok options.defaultStyle :=
    Decoder.readIf_same fun style h ↦
      ⟨by rintro ⟨⟩, Style.decode_encode (valid.defaultStyle style h)⟩
  have hcodec : options.encode.get? "codec" = options.codec.map .str := by
    simp [encode, Json.get?]
  simp only [decode, decodeOver, hrecord.object, hoptional]
  simp only [Decoder.optField_eq, Decoder.field, hrecord.written?, hcodec,
    Decoder.readIf_such_str valid.codec]
  simp [encode, Json.get?, Decoder.name, Quality.ofName?_name, hside _ valid.width,
    hside _ valid.height, Decoder.readIf_such_str valid.aspectRatio, hfps, hduration, htrim, hcrop,
    hscale, hstyle]

end RenderOptions
end Montage
