import Montage.Proofs.Animation.Valid
import Montage.Proofs.Number.Sign
import Montage.Proofs.Position.Settled
import Montage.Proofs.Style.Valid
import Montage.Proofs.Subtitle.Script.Tags
import Montage.Subtitle.Script.Writer

/-!
# What override tags say

Reading the tags of a line goes from what is known so far to what is known with one more tag.  Texts
of tags are followed in the same way: they tell a step from one state to another (`Script.Tells`),
and steps of texts that stand one behind the other are steps from the first state to the last.  So
the tags of a style, of a place and of a fade are each looked at on their own.

What they tell in all is what the subtitle says, up to the sign of a zero, which no text has.
-/

set_option autoImplicit false

namespace Montage
namespace Script

attribute [local instance] Rounding.binary64

/-! ## Steps -/

theorem addAll_append (all : Overrides) (tags more : List (Tag × List Char)) :
    all.addAll (tags ++ more) = all.addAll tags >>= fun all ↦ all.addAll more :=
  List.foldlM_append

/-- Texts of tags that lead from one state of what is known to another. -/
def Tells (texts : List String) (before after : Overrides) : Prop :=
  ∃ tags, (String.join texts).toList = tags.flatMap written ∧ (texts = [] ↔ tags = [])
    ∧ (∀ tag ∈ tags, IsWritten tag) ∧ before.addAll tags = .ok after

namespace Tells

variable {before between after : Overrides}

theorem nothing (all : Overrides) : Tells [] all all :=
  ⟨[], rfl, by simp, fun _ h ↦ absurd h List.not_mem_nil, rfl⟩

theorem append {texts more : List String} (h : Tells texts before between)
    (hmore : Tells more between after) : Tells (texts ++ more) before after := by
  obtain ⟨tags, hjoin, hempty, hwritten, hadd⟩ := h
  obtain ⟨moreTags, hmoreJoin, hmoreEmpty, hmoreWritten, hmoreAdd⟩ := hmore
  refine ⟨tags ++ moreTags, ?_, ?_, ?_, ?_⟩
  · rw [String.join_append, String.toList_append, hjoin, hmoreJoin, List.flatMap_append]
  · rw [List.append_eq_nil_iff, List.append_eq_nil_iff, hempty, hmoreEmpty]
  · rw [List.forall_mem_append]
    exact ⟨hwritten, hmoreWritten⟩
  · rw [addAll_append]
    exact bind_eq_ok.mpr ⟨between, hadd, hmoreAdd⟩

/-- One text may hold several tags. -/
theorem text {text : String} (tags : List (Tag × List Char)) (hne : tags ≠ [])
    (htext : text.toList = tags.flatMap written) (hwritten : ∀ tag ∈ tags, IsWritten tag)
    (hadd : before.addAll tags = .ok after) : Tells [text] before after := by
  refine ⟨tags, ?_, ?_, hwritten, hadd⟩
  · rw [String.join_cons, String.toList_append, htext, String.join_nil]
    exact List.append_nil _
  · simp [hne]

theorem tag {text : String} {tag : Tag} (value : List Char)
    (htext : text.toList = written (tag, value)) (hwritten : IsWritten (tag, value))
    (hadd : before.add tag value = .ok after) : Tells [text] before after := by
  refine .text [(tag, value)] (List.cons_ne_nil _ _) ?_ ?_ ?_
  · rw [htext, List.flatMap_singleton]
  · rwa [List.forall_mem_singleton]
  · exact bind_eq_ok.mpr ⟨after, hadd, rfl⟩

end Tells

/-! ## Sizes -/

/-- A quantity that a script can hold: a finite one that is written without an exponent. -/
structure IsSize (x : Quantity) : Prop where
  finite : ∃ q, x.value? = some q ∧ IsOnGrid q
  plain : 'e' ∉ (quantityText x).toList

theorem quantityText_unsigned (x : Quantity) : quantityText x.unsigned = quantityText x := by
  cases x <;> rfl

/-- A size is read back without the sign of a zero. -/
theorem IsSize.read {x : Quantity} (h : IsSize x) :
    readQuantity (quantityText x).toList = .ok x.unsigned := by
  obtain ⟨q, hvalue, hgrid⟩ := h.finite
  have hunsigned : x.unsigned = .finite q := by
    cases x <;> cases hvalue <;> rfl
  rw [← quantityText_unsigned, hunsigned]
  exact hgrid.readQuantity_text

theorem IsSize.isTagValue {x : Quantity} (h : IsSize x) (hx : Quantity.le (.finite 0) x = true) :
    IsTagValue (quantityText x).toList := by
  refine isTagValue_plain ?_
  have hplain := h.plain
  rw [← quantityText_unsigned] at hplain ⊢
  rcases Quantity.le_zero_iff.mp hx with ⟨q, hq, rfl⟩ | rfl | rfl
  · exact text_plain hq hplain
  · exact text_plain le_rfl hplain
  · obtain ⟨_, hvalue, _⟩ := h.finite
    cases hvalue

/-! ## Styles -/

end Script

/-- A style that override tags can say. -/
structure Style.IsScript (style : Style) : Prop where
  valid : style.IsValid
  weight : ∀ weight ∈ style.fontWeight, weight = "bold"
  slant : ∀ slant ∈ style.fontStyle, slant = "italic"
  decoration : ∀ decoration ∈ style.textDecoration, decoration = "underline"
  size : ∀ size ∈ style.fontSize, Script.IsSize size
  width : ∀ width ∈ style.strokeWidth, Script.IsSize width
  color : ∀ color ∈ style.color, Color.IsNotation color
  strokeColor : ∀ color ∈ style.strokeColor, Color.IsNotation color
  only : style = {
    fontSize := style.fontSize, fontWeight := style.fontWeight, fontStyle := style.fontStyle
    textDecoration := style.textDecoration, color := style.color
    strokeColor := style.strokeColor, strokeWidth := style.strokeWidth }
  some : style ≠ {}

/-- The style with a width that has no sign where it is zero. -/
def Style.unsigned (style : Style) : Style :=
  { style with strokeWidth := style.strokeWidth.map Quantity.unsigned }

namespace Script

attribute [local instance] Rounding.binary64

/-- The tag of a field that is open or holds one word tells the field. -/
theorem tells_flag (tag : Tag) (word : String) (result : Option String → Overrides)
    {field : Option String} (h : ∀ given ∈ field, given = word) (isMarked : Option String → Bool)
    (hopen : isMarked none = false) (hword : isMarked (some word) = true) (text : String)
    (htext : text.toList = written (tag, ['1']))
    (hadd : (result none).add tag ['1'] = .ok (result (some word))) :
    Tells (if isMarked field then [text] else []) (result none) (result field) := by
  cases field with
  | none =>
    rw [hopen]
    exact .nothing _
  | some given =>
    rw [h given rfl, hword]
    have hone : IsTagValue ['1'] := isTagValue_plain (by decide)
    exact .tag ['1'] htext ⟨hone, fun _ ↦ rfl⟩ hadd

/-- The tag of a size tells the size. -/
theorem tells_size (tag : Tag) (hbold : tag ≠ .bold) {mark : String}
    (hmark : mark.toList = '\\' :: tag.word) {x : Quantity} (h : IsSize x)
    (hx : Quantity.le (.finite 0) x = true) {before after : Overrides}
    (hadd : ∀ value, value ≠ [] → readQuantity value = .ok x.unsigned →
      before.add tag value = .ok after) :
    Tells [mark ++ quantityText x] before after := by
  refine .tag _ ?_ ⟨h.isTagValue hx, fun hcontra ↦ absurd hcontra hbold⟩
    (hadd _ (text_ne_nil _) h.read)
  rw [String.toList_append, hmark]
  rfl

theorem isTagColor {color : String} (h : Color.IsNotation color) : ∃ text, colorValue color = .ok text
    ∧ IsTagValue text.toList ∧ Color.ofScript? text.toList = some color := by
  obtain ⟨text, htext, hchars⟩ := Color.exists_scriptText h
  obtain ⟨hne, hall⟩ := h.turned
  have hvalue : ("&H" ++ String.ofList (text.toList.drop 4) ++ "&").toList
      = '&' :: 'H' :: (Color.turned color ++ ['&']) := by
    simp only [hchars, String.toList_append, String.toList_ofList, List.append_assoc,
      List.drop_succ_cons, List.drop_zero]
    rfl
  refine ⟨"&H" ++ String.ofList (text.toList.drop 4) ++ "&", ?_, ?_, ?_⟩
  · rw [colorValue, htext]
    rfl
  · rw [hvalue]
    exact isTagValue_color hne hall
  · rw [hvalue]
    exact Color.ofScript?_turned h

/-- The tag of a color tells the color. -/
theorem exists_colorTag (tag : Tag) {name : String} (hname : name.toList = tag.word)
    (hbold : tag ≠ .bold) {color : Option String} (h : ∀ name ∈ color, Color.IsNotation name)
    (result : Option String → Overrides)
    (hadd : ∀ value color, Color.ofScript? value = some color →
      (result none).add tag value = .ok (result (some color))) :
    ∃ texts, colorTag name color = .ok texts ∧ Tells texts (result none) (result color) := by
  cases color with
  | none => exact ⟨[], rfl, .nothing _⟩
  | some color =>
    obtain ⟨text, htext, hvalue, hread⟩ := isTagColor (h color rfl)
    have hne : color.isEmpty = false := by
      obtain ⟨digits, hcolor, -⟩ := h color rfl
      rw [← Bool.not_eq_true, String.isEmpty_iff]
      rintro rfl
      cases hcolor
    refine ⟨["\\" ++ name ++ text], ?_, .tag text.toList ?_ ⟨hvalue, ?_⟩ (hadd _ _ hread)⟩
    · rw [colorTag, hne, htext]
      rfl
    · rw [String.toList_append, String.toList_append, hname]
      rfl
    · exact fun hcontra ↦ absurd hcontra hbold

/-- The tags of a quantity that may be open tell it, if they tell one that is given. -/
theorem Tells.ofQuantity (texts : Quantity → List String) (result : Option Quantity → Overrides) :
    ∀ field : Option Quantity, (∀ x ∈ field, Tells (texts x) (result none) (result (some x))) →
      Tells (match field with
        | some x => texts x
        | none => []) (result none) (result field)
  | none, _ => .nothing _
  | some x, h => h x rfl

/-- **The tags of a style tell the style**, field by field. -/
theorem exists_styleTags {style : Style} (h : style.IsScript) :
    ∃ texts, styleTags style = .ok texts ∧ Tells texts {} { style := style.unsigned } := by
  have hbold := tells_flag .bold "bold" (fun fontWeight ↦ { style := { fontWeight } }) h.weight
    (fun fontWeight ↦ Style.isBold { fontWeight }) (by decide) (by decide) "\\b1" rfl rfl
  have hitalic := tells_flag .slanted "italic"
    (fun fontStyle ↦ { style := { fontWeight := style.fontWeight, fontStyle } }) h.slant
    (fun fontStyle ↦ Style.isItalic { fontStyle }) (by decide) (by decide) "\\i1" rfl rfl
  have hunderlined := tells_flag .underlined "underline"
    (fun textDecoration ↦ { style := {
      fontWeight := style.fontWeight, fontStyle := style.fontStyle, textDecoration } }) h.decoration
    (fun textDecoration ↦ Style.isUnderlined { textDecoration }) (by decide) (by decide)
    "\\u1" rfl rfl
  have hsize := Tells.ofQuantity
    (fun size ↦ if size.eq (.finite 0) then [] else ["\\fs" ++ quantityText size])
    (fun fontSize ↦ { style := {
      fontWeight := style.fontWeight, fontStyle := style.fontStyle
      textDecoration := style.textDecoration, fontSize } })
    style.fontSize fun size hfont ↦ by
      have hpos : Quantity.lt (.finite 0) size = true := h.valid.fontSize size hfont
      rw [Quantity.eq_zero_of_pos hpos, if_neg Bool.false_ne_true]
      refine tells_size .size (by decide) rfl (h.size size hfont) (Quantity.le_of_lt hpos)
        fun value hne hread ↦ ?_
      rw [Overrides.add, List.isEmpty_eq_false_iff.mpr hne, hread, Quantity.unsigned_of_pos hpos]
      rfl
  obtain ⟨color, hcolor, hcolorTells⟩ := exists_colorTag .color (show "c".toList = _ from rfl)
    (by decide) h.color (fun color ↦ { style := {
      fontWeight := style.fontWeight, fontStyle := style.fontStyle
      textDecoration := style.textDecoration, fontSize := style.fontSize, color } })
    (fun value color hread ↦ by
      rw [Overrides.add, tagColor, hread]
      rfl)
  obtain ⟨stroke, hstroke, hstrokeTells⟩ := exists_colorTag .outlineColor (show "3c".toList = _ from rfl)
    (by decide) h.strokeColor (fun strokeColor ↦ { style := {
      fontWeight := style.fontWeight, fontStyle := style.fontStyle
      textDecoration := style.textDecoration, fontSize := style.fontSize, color := style.color
      strokeColor } })
    (fun value color hread ↦ by
      rw [Overrides.add, tagColor, hread]
      rfl)
  have hwidth := Tells.ofQuantity (fun width ↦ ["\\bord" ++ quantityText width])
    (fun strokeWidth ↦ { style := {
      fontWeight := style.fontWeight, fontStyle := style.fontStyle
      textDecoration := style.textDecoration, fontSize := style.fontSize, color := style.color
      strokeColor := style.strokeColor, strokeWidth := strokeWidth.map .unsigned } })
    style.strokeWidth fun width hstroke ↦ by
      refine tells_size .outline (by decide) rfl (h.width width hstroke)
        (h.valid.strokeWidth width hstroke) fun value hne hread ↦ ?_
      rw [Overrides.add, List.isEmpty_eq_false_iff.mpr hne, hread]
      rfl
  have htold := hbold.append hitalic |>.append hunderlined |>.append hsize |>.append hcolorTells
    |>.append hstrokeTells |>.append hwidth
  have hstyle : style.unsigned = _ := congrArg Style.unsigned h.only
  rw [hstyle]
  exact ⟨_, bind_eq_ok.mpr ⟨color, hcolor, bind_eq_ok.mpr ⟨stroke, hstroke, rfl⟩⟩, htold⟩

/-- **The style that tags tell is read as a style.** -/
theorem styleOf_unsigned {style : Style} (h : style.IsScript) {all : Overrides}
    (hall : all.style = style.unsigned) : all.styleOf = .ok (some style.unsigned) := by
  have hvalid : style.unsigned.IsValid := by
    refine ⟨h.valid.fontSize, ?_, h.valid.backgroundPadding, h.valid.opacity, h.valid.scale⟩
    rintro _ hwidth
    obtain ⟨width, hgiven, rfl⟩ := Option.mem_map.mp hwidth
    exact (Quantity.unsigned_le (.finite 0) width).trans (h.valid.strokeWidth width hgiven)
  have hsome : style.unsigned ≠ {} := by
    intro hopen
    apply h.some
    have hwidth : style.strokeWidth = none := by
      have := congrArg Style.strokeWidth hopen
      exact Option.map_eq_none_iff.mp this
    rw [← hopen, Style.unsigned, hwidth, Option.map_none, ← hwidth]
  rw [Overrides.styleOf, hall, if_neg hsome, Style.decode_encode hvalid]
  rfl

end Script
end Montage
