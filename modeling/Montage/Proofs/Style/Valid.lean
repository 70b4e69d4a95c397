import Montage.Proofs.Document.Field
import Montage.Style.Basic

/-!
# Valid styles

A style is valid if its sizes, widths and shares are in their ranges.  What is read from a document
is valid, the named styles are, and laying one valid style over another gives a valid one; and
valid styles are those that a document brings back.
-/

set_option autoImplicit false

namespace Montage

namespace Style

/-- The fields that have a range are in it. -/
structure IsValid (style : Style) : Prop where
  fontSize : ∀ x ∈ style.fontSize, isPositive x = true
  strokeWidth : ∀ x ∈ style.strokeWidth, isNonnegative x = true
  backgroundPadding : ∀ x ∈ style.backgroundPadding, isNonnegative x = true
  opacity : ∀ x ∈ style.opacity, isShare x = true
  scale : ∀ x ∈ style.scale, isPositive x = true

/-! ## Laying styles over each other -/

theorem isValid_open : IsValid {} := by
  constructor <;> rintro _ ⟨⟩

theorem or_isValid {p : Quantity → Prop} {top base : Option Quantity} (htop : ∀ x ∈ top, p x)
    (hbase : ∀ x ∈ base, p x) : ∀ x ∈ top.or base, p x := by
  cases top with
  | none => exact hbase
  | some a => exact htop

theorem IsValid.onto {top base : Style} (htop : top.IsValid) (hbase : base.IsValid) :
    (top.onto base).IsValid where
  fontSize := or_isValid htop.fontSize hbase.fontSize
  strokeWidth := or_isValid htop.strokeWidth hbase.strokeWidth
  backgroundPadding := or_isValid htop.backgroundPadding hbase.backgroundPadding
  opacity := or_isValid htop.opacity hbase.opacity
  scale := or_isValid htop.scale hbase.scale

theorem IsValid.merged {base : Style} (hbase : base.IsValid) {overrides : List (Option Style)}
    (h : ∀ override ∈ overrides, ∀ style ∈ override, style.IsValid) :
    (base.merged overrides).IsValid := by
  induction overrides generalizing base with
  | nil => exact hbase
  | cons override rest ih =>
    rw [List.forall_mem_cons] at h
    refine ih (IsValid.onto ?_ hbase) h.2
    cases override with
    | none => exact isValid_open
    | some style => exact h.1 style rfl

/-! ## Named styles -/

/-- Whether a style is valid, by looking at its fields. -/
def checksOut (style : Style) : Bool :=
  style.fontSize.all isPositive && style.strokeWidth.all isNonnegative
    && style.backgroundPadding.all isNonnegative && style.opacity.all isShare
    && style.scale.all isPositive

theorem checksOut_iff {style : Style} : style.checksOut = true ↔ style.IsValid := by
  simp only [checksOut, Bool.and_eq_true, Option.all_eq_true]
  constructor
  · rintro ⟨⟨⟨⟨hfont, hstroke⟩, hpadding⟩, hopacity⟩, hscale⟩
    exact ⟨hfont, hstroke, hpadding, hopacity, hscale⟩
  · rintro ⟨hfont, hstroke, hpadding, hopacity, hscale⟩
    exact ⟨⟨⟨⟨hfont, hstroke⟩, hpadding⟩, hopacity⟩, hscale⟩

instance (style : Style) : Decidable style.IsValid := decidable_of_iff _ checksOut_iff

theorem captionPreset?_isValid {name : String} {style : Style}
    (h : captionPreset? name = some style) : style.IsValid := by
  unfold captionPreset? at h
  split at h <;> cases h <;> decide

theorem wordPreset?_isValid {name : String} {preset : WordPreset}
    (h : wordPreset? name = some preset) : preset.rest.IsValid ∧ preset.active.IsValid := by
  unfold wordPreset? at h
  split at h <;> cases h <;> decide +kernel

theorem wordRest_isValid : wordRest.IsValid := by decide

theorem wordActive_isValid : wordActive.IsValid := by decide

/-! ## Documents -/

variable [Rounding]

theorem decode_isValid (document : Json) : (decode document).All IsValid := by
  refine Decoder.all_object ?_
  simp only [Checked.all_seq, Checked.all_map]
  intro _ hfontSize _ _ _ _ _ _ _ _ _ _ _ _ _ _ _ hstrokeWidth _ _ _ hpadding _ _ _ _ _ _ _
    hopacity _ hscale _ _ _ _ _ _
  exact ⟨Decoder.all_suchOptField _ hfontSize, Decoder.all_suchOptField _ hstrokeWidth,
    Decoder.all_suchOptField _ hpadding, Decoder.all_suchOptField _ hopacity,
    Decoder.all_suchOptField _ hscale⟩

omit [Rounding] in
theorem isRecord_encode (style : Style) : style.encode.IsRecord := by
  refine .of_camel ?_
  repeat' apply areCamel_append
  all_goals exact areCamel_ifSome _ _ (by decide)

/-- **A valid style is what its document is read as.** -/
theorem decode_encode {style : Style} (valid : style.IsValid) :
    decode style.encode = .ok style := by
  have hrecord := style.isRecord_encode
  simp only [decode, hrecord.object, hrecord.written?, Decoder.optField_eq]
  simp [encode, Json.get?, Decoder.readIf_such valid.fontSize,
    Decoder.readIf_such valid.strokeWidth, Decoder.readIf_such valid.backgroundPadding,
    Decoder.readIf_such valid.opacity, Decoder.readIf_such valid.scale]

/-- A style whose document can be read is valid. -/
theorem isValid_of_decode_encode {style made : Style} (h : decode style.encode = .ok made) :
    style.IsValid := by
  have hrecord := style.isRecord_encode
  refine (?_ : (decode style.encode).All fun _ ↦ style.IsValid) made h
  simp only [decode, hrecord.object, hrecord.written?, Decoder.optField_eq, Checked.all_seq,
    Checked.all_map]
  intro _ hfontSize _ _ _ _ _ _ _ _ _ _ _ _ _ _ _ hstrokeWidth _ _ _ hpadding _ _ _ _ _ _ _
    hopacity _ hscale _ _ _ _ _ _
  obtain ⟨hsize, hstroke, hpad, hshare, hlarge⟩ :
      style.encode.get? "fontSize" = style.fontSize.map .quantity ∧
      style.encode.get? "strokeWidth" = style.strokeWidth.map .quantity ∧
      style.encode.get? "backgroundPadding" = style.backgroundPadding.map .quantity ∧
      style.encode.get? "opacity" = style.opacity.map .quantity ∧
      style.encode.get? "scale" = style.scale.map .quantity := by
    simp [encode, Json.get?]
  rw [hsize] at hfontSize
  rw [hstroke] at hstrokeWidth
  rw [hpad] at hpadding
  rw [hshare] at hopacity
  rw [hlarge] at hscale
  exact ⟨Decoder.all_readIf_such _ hfontSize, Decoder.all_readIf_such _ hstrokeWidth,
    Decoder.all_readIf_such _ hpadding, Decoder.all_readIf_such _ hopacity,
    Decoder.all_readIf_such _ hscale⟩

theorem coerce_isValid {value : Json} {style : Option Style} (h : coerce value = .ok style) :
    ∀ given ∈ style, given.IsValid := by
  unfold coerce at h
  split at h
  · cases h
    rintro _ ⟨⟩
  · obtain ⟨made, hmade, rfl⟩ := map_eq_ok.mp (constructing_eq_ok.mp h)
    rintro _ ⟨⟩
    exact decode_isValid value made (Checked.toExcept_eq_ok.mp hmade)

end Style
end Montage
